import Mathlib.Data.List.Infix
import Demiplane.Scroll.Logger
import Demiplane.Text.Decimal

/-!
`FileSink`: a stream that keeps text back, and a file that is changed for a new one when the
stream has grown beyond the limit. The clock names the new file, so it can be one that exists,
even the one just closed; it is opened for appending, at its end. A write can fail, which leaves
the stream in error until a file is opened, and so can an opening, which throws.

Where neither fails, what the calls of a sink write is divided into segments, one for each time a
file was opened. The files hold what they held before and the segments with their name, up to what
the stream keeps.
-/

namespace Demiplane.Scroll

open Text

/-! ### The sink -/

def LogLevel.value : LogLevel → ℕ
  | .trace => 0
  | .debug => 1
  | .info => 2
  | .warning => 3
  | .error => 4
  | .fatal => 5

/-- `log_level_to_string`. -/
def LogLevel.toText : LogLevel → Text
  | .trace => ascii "TRC"
  | .debug => ascii "DBG"
  | .info => ascii "INF"
  | .warning => ascii "WRN"
  | .error => ascii "ERR"
  | .fatal => ascii "FAT"

/-- `LightEntry::format_into`. -/
def lightEntry {M : Type*} (event : LogEvent M) : Text :=
  event.level.toText ++ 32 :: (event.message ++ [10])

inductive PrefixFilterMode where
  | allowAll
  | allowlist
  | denylist

structure PrefixFilter where
  mode : PrefixFilterMode
  blockEmpty : Bool
  set : List Text

def PrefixFilter.accepts (f : PrefixFilter) (prefixName : Text) : Bool :=
  if prefixName.isEmpty then !f.blockEmpty
  else
    match f.mode with
    | .allowAll => true
    | .allowlist => f.set.contains prefixName
    | .denylist => !f.set.contains prefixName

/-- `FileSinkConfig`, without `rotate_file`, which the sink never asks for. The path of the file is
given by its parts. -/
structure FileSinkConfig where
  threshold : LogLevel
  directory : Text
  stem : Text
  extension : Text
  addTimeToFilename : Bool
  maxFileSize : ℕ
  flushEachEntry : Bool
  prefixFilter : PrefixFilter

def FileSinkConfig.file (cfg : FileSinkConfig) : Text := cfg.directory ++ cfg.stem ++ cfg.extension

/-- The path that `init` opens when the clock shows `time`. -/
def FileSinkConfig.path (cfg : FileSinkConfig) (time : Text) : Text :=
  if cfg.addTimeToFilename then
    cfg.directory ++ cfg.stem ++ ascii "_" ++ time ++ cfg.extension
  else cfg.file

def FileSinkConfig.shouldLog {M : Type*} (cfg : FileSinkConfig) (event : LogEvent M) : Bool :=
  cfg.threshold.value ≤ event.level.value && cfg.prefixFilter.accepts event.prefixName.bytes

structure FileSink where
  config : FileSinkConfig
  filePath : Text
  /-- What was put into the stream and is not in the file yet. -/
  pending : Text
  /-- Where the descriptor stands: at the end of a file that is opened for appending. -/
  offset : ℕ
  /-- The stream is open and without error. -/
  good : Bool

/-- The files, by their paths, and a sink. -/
structure Files where
  disk : Text → Text
  sink : FileSink

/-- What a write that fails has written all the same, and what the stream keeps after it. -/
structure WriteError where
  written : Text
  kept : Text

/-- What becomes of an attempt to open a file: its directories cannot be made, or the file cannot
be opened. -/
inductive Opening where
  | opened
  | noDirectories (what : Text)
  | failed
  deriving DecidableEq

/-- What a call meets: how much of its text the stream writes at once and whether that goes well,
the time, and whether a file can be opened. -/
structure Moment where
  spill : ℕ
  time : Text
  writeError : Option WriteError := none
  opening : Opening := .opened

/-- No write fails, and a file can be opened. -/
def Moment.Succeeds (now : Moment) : Prop := now.writeError = none ∧ now.opening = .opened

namespace Files

variable {M : Type*} (w : Files) (now : Moment)

def content : Text := w.disk w.sink.filePath

/-- The file buffer writes the first bytes of what it keeps. -/
def writeOut (n : ℕ) : Files :=
  if w.sink.pending.take n = [] then w
  else
    let (written, kept, good) := match now.writeError with
      | none => (w.sink.pending.take n, w.sink.pending.drop n, w.sink.good)
      | some e => (e.written, e.kept, false)
    { disk := Function.update w.disk w.sink.filePath (w.content ++ written)
      sink := { w.sink with
        pending := kept
        offset := (w.content ++ written).length
        good := good } }

/-- A stream in error does not touch its buffer. -/
def flush : Files := if w.sink.good then w.writeOut now w.sink.pending.length else w

/-- `file_stream_ << text`. -/
def put (text : Text) : Files :=
  if w.sink.good then
    writeOut { w with sink := { w.sink with pending := w.sink.pending ++ text } } now now.spill
  else w

/-- `tellp()`, `none` for -1. -/
def tellp : Option ℕ := if w.sink.good then some (w.sink.offset + w.sink.pending.length) else none

/-- The buffer is written also in error. -/
def close : Files := w.writeOut now w.sink.pending.length

/-- `init`, with the text of the exception if one is thrown. -/
def init : Files × Option Text :=
  let path := w.sink.config.path now.time
  match now.opening with
  | .opened =>
      ({ w with sink := ⟨w.sink.config, path, [], (w.disk path).length, true⟩ }, none)
  | .noDirectories what =>
      ({ w with sink := { w.sink with pending := [], good := false } }, some what)
  | .failed =>
      ({ w with sink := { w.sink with pending := [], good := false } },
        some (ascii "Failed to open log file: " ++ path))

/-- The constructor, when no exception ends the program: it is `noexcept`. -/
def create (disk : Text → Text) (config : FileSinkConfig) : Files :=
  (init ⟨disk, ⟨config, [], [], 0, false⟩⟩ now).1

/-- A file that is not there counts as an empty one. -/
def shouldRotate : Bool :=
  if !w.sink.config.addTimeToFilename then false
  else w.sink.config.maxFileSize < w.tellp.getD (w.disk w.sink.config.file).length

def rotateLog : Files × Option Text := ((w.flush now).close now).init now

/-- `process`; `format` is what the entries of the sink write into a cleared buffer. -/
def process (format : LogEvent M → Text) (event : LogEvent M) : Files × Option Text :=
  if !w.sink.config.shouldLog event then (w, none)
  else
    let w := w.put now (format event)
    let w := if w.sink.config.flushEachEntry then w.flush now else w
    if w.shouldRotate then w.rotateLog now else (w, none)

def setConfig (config : FileSinkConfig) : Files := { w with sink := { w.sink with config } }

end Files

/-- The calls of a sink. -/
inductive SinkCall (M : Type*) where
  | process (event : LogEvent M) (now : Moment)
  | flush (now : Moment)
  | setConfig (config : FileSinkConfig)

def SinkCall.Succeeds {M : Type*} : SinkCall M → Prop
  | .process _ now | .flush now => now.Succeeds
  | .setConfig _ => True

section Calls

variable {M : Type*} (format : LogEvent M → Text)

/-- A call, with the text of the exception if it throws one. -/
def Files.call (w : Files) : SinkCall M → Files × Option Text
  | .process event now => w.process now format event
  | .flush now => (w.flush now, none)
  | .setConfig config => (w.setConfig config, none)

/-- One call after the other, whether they throw or not. -/
def Files.calls (w : Files) (cs : List (SinkCall M)) : Files :=
  cs.foldl (fun w c => (w.call format c).1) w

/-- The texts of the events that pass the filters in force. -/
def entriesOf : FileSinkConfig → List (SinkCall M) → List Text
  | _, [] => []
  | config, .process event _ :: cs =>
      if config.shouldLog event then format event :: entriesOf config cs else entriesOf config cs
  | config, .flush _ :: cs => entriesOf config cs
  | _, .setConfig config :: cs => entriesOf config cs

end Calls

/-! ### Segments -/

/-- What was written from one opening of a file to the next. -/
structure Segment where
  path : Text
  entries : List Text

def Segment.text (s : Segment) : Text := s.entries.flatten

/-- What the segments add to a file. -/
def added (segments : List Segment) (path : Text) : Text :=
  (segments.filter (·.path = path)).flatMap Segment.text

theorem added_concat (segments : List Segment) (s : Segment) (path : Text) :
    added (segments ++ [s]) path =
      added segments path ++ if s.path = path then s.text else [] := by
  by_cases h : s.path = path <;> simp [added, h]

/-- The segments that are closed and the one being written. -/
structure OnDisk (initial : Text → Text) (w : Files) (closed : List Segment) (s : Segment) :
    Prop where
  path : s.path = w.sink.filePath
  good : w.sink.good = true
  offset : w.sink.offset = w.content.length
  disk : ∀ path, w.disk path ++ (if s.path = path then w.sink.pending else []) =
    initial path ++ added (closed ++ [s]) path

namespace OnDisk

variable {initial : Text → Text} {w : Files} {closed : List Segment} {s : Segment} {now : Moment}

theorem writeOut (h : OnDisk initial w closed s) (hnow : now.Succeeds) (n : ℕ) :
    OnDisk initial (w.writeOut now n) closed s := by
  rw [Files.writeOut, hnow.1]
  split_ifs with hout
  · exact h
  · refine ⟨h.path, h.good, by simp [Files.content], fun path => ?_⟩
    have hdisk := h.disk path
    dsimp only
    by_cases hpath : s.path = path
    · rw [if_pos hpath] at hdisk ⊢
      rw [← hdisk, ← hpath, h.path, Function.update_self, List.append_assoc,
        List.take_append_drop]
      rfl
    · rw [if_neg hpath] at hdisk ⊢
      rw [Function.update_of_ne fun heq => hpath (h.path.trans heq.symm)]
      exact hdisk

theorem flush (h : OnDisk initial w closed s) (hnow : now.Succeeds) :
    OnDisk initial (w.flush now) closed s := by
  rw [Files.flush, if_pos h.good]
  exact h.writeOut hnow _

theorem put (h : OnDisk initial w closed s) (hnow : now.Succeeds) (text : Text) :
    OnDisk initial (w.put now text) closed { s with entries := s.entries ++ [text] } := by
  have hkept : OnDisk initial
      { w with sink := { w.sink with pending := w.sink.pending ++ text } } closed
      { s with entries := s.entries ++ [text] } := by
    refine ⟨h.path, h.good, h.offset, fun path => ?_⟩
    have hdisk := congrArg (· ++ if s.path = path then text else []) (h.disk path)
    simp only [added_concat, List.append_assoc] at hdisk ⊢
    split_ifs at hdisk ⊢ <;> simpa [Segment.text] using hdisk
  rw [Files.put, if_pos h.good]
  exact hkept.writeOut hnow now.spill

theorem setConfig (h : OnDisk initial w closed s) (config : FileSinkConfig) :
    OnDisk initial (w.setConfig config) closed s :=
  ⟨h.path, h.good, h.offset, h.disk⟩

/-- The text is in the files when the stream keeps nothing. -/
theorem disk_eq (h : OnDisk initial w closed s) (hpending : w.sink.pending = []) (path : Text) :
    w.disk path = initial path ++ added (closed ++ [s]) path := by
  have hdisk := h.disk path
  rwa [hpending, ite_self, List.append_nil] at hdisk

/-- A file is opened. -/
theorem init {w : Files} {segments : List Segment}
    (hdisk : ∀ path, w.disk path = initial path ++ added segments path) (hnow : now.Succeeds) :
    OnDisk initial (w.init now).1 segments ⟨w.sink.config.path now.time, []⟩ := by
  rw [Files.init, hnow.2]
  refine ⟨rfl, rfl, rfl, fun path => ?_⟩
  dsimp only
  rw [added_concat, Segment.text, List.flatten_nil, ite_self, List.append_nil, List.append_nil,
    hdisk]

theorem create (disk : Text → Text) (config : FileSinkConfig) (hnow : now.Succeeds) :
    OnDisk disk (Files.create now disk config) [] ⟨config.path now.time, []⟩ :=
  init (fun path => by simp [added]) hnow

/-- The stream is as far as the file is long, with what is kept back. -/
theorem tellp_eq (h : OnDisk initial w closed s) :
    w.tellp = some ((initial s.path ++ added closed s.path).length + s.text.length) := by
  have hdisk := h.disk s.path
  rw [if_pos rfl, added_concat, if_pos rfl, ← List.append_assoc] at hdisk
  rw [Files.tellp, if_pos h.good, h.offset, Files.content, ← h.path, ← List.length_append,
    ← List.length_append, hdisk]

end OnDisk

namespace Files

variable {w : Files} {now : Moment}

theorem writeOut_all (hnow : now.Succeeds) :
    (w.writeOut now w.sink.pending.length).sink.pending = [] := by
  rw [writeOut, hnow.1]
  split_ifs with h
  · simpa using h
  · simp

theorem flush_pending (hgood : w.sink.good = true) (hnow : now.Succeeds) :
    (w.flush now).sink.pending = [] := by
  rw [flush, if_pos hgood]
  exact writeOut_all hnow

@[simp] theorem writeOut_config (n : ℕ) : (w.writeOut now n).sink.config = w.sink.config := by
  rw [writeOut]
  split_ifs <;> rfl

@[simp] theorem flush_config : (w.flush now).sink.config = w.sink.config := by
  rw [flush]
  split_ifs <;> simp

@[simp] theorem put_config (text : Text) : (w.put now text).sink.config = w.sink.config := by
  rw [put]
  split_ifs <;> simp

@[simp] theorem init_config : (w.init now).1.sink.config = w.sink.config := by
  rw [init]
  split <;> rfl

@[simp] theorem rotateLog_config : (w.rotateLog now).1.sink.config = w.sink.config := by
  rw [rotateLog, init_config, close, writeOut_config, flush_config]

end Files

theorem OnDisk.rotateLog {initial : Text → Text} {w : Files} {closed : List Segment} {s : Segment}
    {now : Moment} (h : OnDisk initial w closed s) (hnow : now.Succeeds) :
    OnDisk initial (w.rotateLog now).1 (closed ++ [s]) ⟨w.sink.config.path now.time, []⟩ := by
  have hclosed : OnDisk initial ((w.flush now).close now) closed s :=
    (h.flush hnow).writeOut hnow _
  have hopened := OnDisk.init (hclosed.disk_eq (Files.writeOut_all hnow)) hnow
  rwa [Files.close, Files.writeOut_config, Files.flush_config] at hopened

/-! ### Calls -/

/-- The sink changes files, and at no higher limit. -/
def FileSinkConfig.Rotates (limit : ℕ) (cfg : FileSinkConfig) : Prop :=
  cfg.addTimeToFilename = true ∧ cfg.maxFileSize ≤ limit

/-- A file is above the limit at most with the first entry of a segment or with the last one, and
the one being written with the first one at most. -/
structure WithinLimit (limit : ℕ) (initial : Text → Text) (closed : List Segment) (s : Segment) :
    Prop where
  before : ∀ l s' r, closed = l ++ s' :: r → s'.entries.dropLast ≠ [] →
    (initial s'.path ++ added l s'.path).length + s'.entries.dropLast.flatten.length ≤ limit
  current : s.entries ≠ [] →
    (initial s.path ++ added closed s.path).length + s.text.length ≤ limit

theorem WithinLimit.rotate {limit : ℕ} {initial : Text → Text} {closed : List Segment} {s : Segment}
    {text : Text} (h : WithinLimit limit initial closed s) (path : Text) :
    WithinLimit limit initial (closed ++ [{ s with entries := s.entries ++ [text] }])
      ⟨path, []⟩ where
  before l s' r heq hmore := by
    rcases r.eq_nil_or_concat with rfl | ⟨r, s'', rfl⟩
    · -- the segment that was being written
      obtain ⟨rfl, hs⟩ := List.append_inj' heq rfl
      obtain rfl := (List.cons.inj hs).1
      rw [List.dropLast_concat] at hmore ⊢
      exact h.current hmore
    · rw [List.concat_eq_append, ← List.cons_append, ← List.append_assoc] at heq
      exact h.before l s' r (List.append_inj_left' heq rfl) hmore
  current hmore := absurd rfl hmore

section Process

variable {M : Type*} {format : LogEvent M → Text} {initial : Text → Text} {w : Files}
  {closed : List Segment} {s : Segment} {now : Moment}

/-- The entries of all segments, in the order in which they were written. -/
def entriesIn (segments : List Segment) : List Text := segments.flatMap (·.entries)

theorem entriesIn_concat (segments : List Segment) (s : Segment) :
    entriesIn (segments ++ [s]) = entriesIn segments ++ s.entries := by
  simp [entriesIn]

/-- The sink as it writes an entry, before it asks for another file. -/
def Files.written (w : Files) (now : Moment) (text : Text) : Files :=
  let w := w.put now text
  if w.sink.config.flushEachEntry then w.flush now else w

theorem Files.process_eq (w : Files) (event : LogEvent M) :
    w.process now format event =
      if w.sink.config.shouldLog event then
        if (w.written now (format event)).shouldRotate then
          (w.written now (format event)).rotateLog now
        else (w.written now (format event), none)
      else (w, none) := by
  rw [process]
  cases w.sink.config.shouldLog event <;> rfl

@[simp] theorem Files.written_config (text : Text) :
    (w.written now text).sink.config = w.sink.config := by
  rw [written]
  split_ifs <;> simp

@[simp] theorem Files.process_config (event : LogEvent M) :
    (w.process now format event).1.sink.config = w.sink.config := by
  rw [process_eq]
  split_ifs <;> simp

theorem OnDisk.written (h : OnDisk initial w closed s) (hnow : now.Succeeds) (text : Text) :
    OnDisk initial (w.written now text) closed { s with entries := s.entries ++ [text] } := by
  rw [Files.written]
  split_ifs
  · exact (h.put hnow text).flush hnow
  · exact h.put hnow text

/-- The file is not above the limit when it is kept. -/
theorem WithinLimit.keep {limit : ℕ} (hb : WithinLimit limit initial closed s) {s' : Segment}
    (h : OnDisk initial w closed s') (hrotates : w.sink.config.Rotates limit)
    (hkeep : w.shouldRotate = false) : WithinLimit limit initial closed s' where
  before := hb.before
  current _ := by
    rw [Files.shouldRotate, hrotates.1, h.tellp_eq] at hkeep
    have hle : (initial s'.path ++ added closed s'.path).length + s'.text.length ≤
        w.sink.config.maxFileSize := not_lt.mp (of_decide_eq_false hkeep)
    exact hle.trans hrotates.2

/-- An event that passes is one entry more, at the end of a segment. -/
theorem OnDisk.process (h : OnDisk initial w closed s) (format : LogEvent M → Text)
    (event : LogEvent M) (hnow : now.Succeeds) :
    ∃ closed' s', OnDisk initial (w.process now format event).1 closed' s' ∧
      entriesIn (closed' ++ [s']) = entriesIn (closed ++ [s]) ++
        (if w.sink.config.shouldLog event then [format event] else []) ∧
      ∀ limit, w.sink.config.Rotates limit → WithinLimit limit initial closed s →
        WithinLimit limit initial closed' s' := by
  rw [Files.process_eq]
  have hwritten := h.written hnow (format event)
  split_ifs with hlog hrotate
  · refine ⟨_, _, hwritten.rotateLog hnow, ?_, fun limit _ hb => hb.rotate _⟩
    simp [entriesIn]
  · refine ⟨_, _, hwritten, ?_, fun limit hrotates hb => ?_⟩
    · simp [entriesIn_concat]
    · exact hb.keep hwritten (by simpa using hrotates) (by simpa using hrotate)
  · exact ⟨closed, s, h, by simp, fun _ _ hb => hb⟩

end Process

/-- The configurations that a sink has while it is called. -/
def configsOf {M : Type*} (config : FileSinkConfig) (cs : List (SinkCall M)) :
    List FileSinkConfig :=
  config :: cs.filterMap fun
    | .setConfig config => some config
    | _ => none

theorem OnDisk.calls {M : Type*} {initial : Text → Text} {w : Files} {closed : List Segment}
    {s : Segment} (h : OnDisk initial w closed s) (format : LogEvent M → Text)
    {cs : List (SinkCall M)} (hcs : ∀ c ∈ cs, c.Succeeds) :
    ∃ closed' s', OnDisk initial (w.calls format cs) closed' s' ∧
      entriesIn (closed' ++ [s']) =
        entriesIn (closed ++ [s]) ++ entriesOf format w.sink.config cs ∧
      ∀ limit, (∀ config ∈ configsOf w.sink.config cs, config.Rotates limit) →
        WithinLimit limit initial closed s → WithinLimit limit initial closed' s' := by
  induction cs generalizing w closed s with
  | nil => exact ⟨closed, s, h, by simp [entriesOf], fun _ _ hb => hb⟩
  | cons c cs ih =>
    obtain ⟨hc, hrest⟩ := List.forall_mem_cons.mp hcs
    cases c with
    | process event now =>
      obtain ⟨closed₁, s₁, h₁, hentries₁, hbound₁⟩ := h.process format event hc
      obtain ⟨closed', s', h', hentries, hbound⟩ := ih h₁ hrest
      rw [Files.process_config] at hentries hbound
      refine ⟨closed', s', h', ?_, fun limit hconfigs hb => ?_⟩
      · rw [hentries, hentries₁, entriesOf]
        split_ifs <;> simp
      · exact hbound limit hconfigs (hbound₁ limit (hconfigs _ List.mem_cons_self) hb)
    | flush now =>
      obtain ⟨closed', s', h', hentries, hbound⟩ := ih (h.flush hc) hrest
      rw [Files.flush_config] at hentries hbound
      exact ⟨closed', s', h', hentries, hbound⟩
    | setConfig config =>
      obtain ⟨closed', s', h', hentries, hbound⟩ := ih (h.setConfig config) hrest
      refine ⟨closed', s', h', hentries, fun limit hconfigs hb => hbound limit ?_ hb⟩
      exact fun config' hmem => hconfigs config' (List.mem_cons_of_mem _ hmem)

theorem WithinLimit.all {limit : ℕ} {initial : Text → Text} {closed : List Segment} {s : Segment}
    (h : WithinLimit limit initial closed s) {l r : List Segment} {s' : Segment}
    (heq : closed ++ [s] = l ++ s' :: r) (hmore : s'.entries.dropLast ≠ []) :
    (initial s'.path ++ added l s'.path).length + s'.entries.dropLast.flatten.length ≤ limit := by
  rcases r.eq_nil_or_concat with rfl | ⟨r, s'', rfl⟩
  · obtain ⟨rfl, hs⟩ := List.append_inj' heq rfl
    obtain rfl := (List.cons.inj hs).1
    refine le_trans (Nat.add_le_add_left ?_ _) (h.current fun hnil => hmore (by rw [hnil]; rfl))
    exact (List.dropLast_prefix s.entries).flatten.length_le
  · rw [List.concat_eq_append, ← List.cons_append, ← List.append_assoc] at heq
    exact h.before l s' r (List.append_inj_left' heq rfl) hmore

/-- `log_` and the time in the working directory, for more than eight bytes a new file. -/
def smallFiles : FileSinkConfig where
  threshold := .info
  directory := []
  stem := ascii "log"
  extension := []
  addTimeToFilename := true
  maxFileSize := 8
  flushEachEntry := false
  prefixFilter := ⟨.allowAll, false, []⟩

/-- Nothing is written before a flush, and nothing fails. -/
def quietly (time : String) : Moment := { spill := 0, time := ascii time }

end Demiplane.Scroll
