import PlanetariumFD.Foundation.NodeList
import PlanetariumFD.Foundation.Transition
import PlanetariumFD.Service.Registration

/-!
# The converter

`CConverter.cpp` polls `visuals` for a row with `mediasubtype` 1, runs ffmpeg on
its file and sets `mediasubtype` to 2. Every call into MySQL and Windows may
fail; `convert` drops what `ExecuteProcess` and `WaitForSingleObject` report, so
a row is marked whether or not its file was converted.
-/

namespace PlanetariumFD

open Outcome Transition QueryString

/-- What `initConfig` reads, the connection settings apart. -/
structure ConverterConfig where
  sMediaPath : List Char
  sFfmpegDir : List Char
  deriving DecidableEq, Repr

def ConverterConfig.sFfmpegExePath (cfg : ConverterConfig) : List Char :=
  cfg.sFfmpegDir ++ "\\ffmpeg.exe".toList

/-- A row in `rlist`: `row[0]` and `row[2]`. The other cells are copied and not read. -/
structure FetchedRow where
  id : Nat
  filepath : List Char
  deriving DecidableEq, Repr

/-- Why there is no next state. -/
inductive ConverterHalt
  | disabled
  /-- `val = row[i]` with a NULL cell -/
  | nullString
  /-- `sprintf` past the end of `sParams` -/
  | bufferOverflow
  deriving DecidableEq, Repr

/-- The loop of `query` over the cells of a row. -/
def fetchRow (id : Nat) (v : Visual) : Except ConverterHalt FetchedRow :=
  match v with
  | ⟨some filepath, some _, some _, some _, some _, some _⟩ => .ok ⟨id, cStr filepath⟩
  | _ => .error .nullString

/-! ## `convert` and `ExecuteProcess` -/

def mediaFile (cfg : ConverterConfig) (mediaName : List Char) : List Char :=
  cfg.sMediaPath ++ "\\".toList ++ mediaName ++ ".avi".toList

def outputFile (cfg : ConverterConfig) (mediaName : List Char) : List Char :=
  cfg.sMediaPath ++ "\\".toList ++ mediaName ++ ".flv".toList

/-- The text that `sprintf` writes to `sParams`. -/
def convertParams (cfg : ConverterConfig) (mediaName : List Char) : List Char :=
  " -y -i \"".toList ++ mediaFile cfg mediaName ++
    "\" -f flv -an -vcodec flv -ar 44100 -s 360x288 \"".toList ++ outputFile cfg mediaName ++
    "\"".toList

def sParamsSize : Nat := 1024

/-- The command line that `ExecuteProcess` builds: the executable's own name, then
the parameters with a blank before them. -/
def commandLine (fullPathToExe parameters : List Char) : List Char :=
  let parameters := if parameters ≠ [] ∧ parameters.head? ≠ some ' ' then ' ' :: parameters
    else parameters
  (fullPathToExe.reverse.takeWhile (· ≠ '\\')).reverse ++ parameters

/-- A process that was started; `hasEnded` once it has. -/
structure Process where
  commandLine : List Char
  hasEnded : Bool
  deriving DecidableEq, Repr

def Process.ofRow (cfg : ConverterConfig) (mediaName : List Char) : Process :=
  ⟨PlanetariumFD.commandLine cfg.sFfmpegExePath (convertParams cfg mediaName), false⟩

inductive WaitResult
  | object0
  | timeout
  | failed
  deriving DecidableEq, Repr

/-- What happened in `ExecuteProcess`: `CreateProcessA` failed, or the process it
started was waited for. -/
inductive Attempt
  | notStarted
  | waited (k : Nat) (result : WaitResult)
  deriving DecidableEq, Repr

/-- `iReturnVal`; the error code is nonzero. -/
def Attempt.iReturnVal : Attempt → Nat
  | .notStarted => 1
  | .waited _ _ => 0

/-- The return value of `convert`, given that of `ExecuteProcess`. -/
def convertResult (_ : Nat) : Bool := true

/-! ## `update` -/

/-- How the calls in `update` ended. -/
structure UpdateCalls where
  isInit : Bool
  isConnected : Bool
  isStmtInit : Bool
  isPrepared : Bool
  isExecuted : Bool
  deriving DecidableEq, Repr

/-- A statement that was not prepared is executed in vain. -/
def UpdateCalls.takesEffect (c : UpdateCalls) : Bool :=
  c.isInit && c.isConnected && c.isStmtInit && c.isPrepared && c.isExecuted

def updateVisual (visuals : NodeList Visual) (id : Nat) (c : UpdateCalls) : NodeList Visual :=
  if c.takesEffect then visuals.modify id fun v => { v with mediasubtype := some 2 } else visuals

/-! ## The main loop -/

/-- Where `main` stands: before `query`, in the loop over `rlist`, waiting for a
process, or between `convert` and `update`. -/
inductive ConverterPC
  | polling
  | rows (rlist : List FetchedRow)
  | waiting (row : FetchedRow) (rest : List FetchedRow) (k : Nat)
  | converted (row : FetchedRow) (rest : List FetchedRow) (attempt : Attempt)
  deriving DecidableEq, Repr

/-- The converter with the table and the processes it has started. -/
structure Converter where
  visuals : NodeList Visual
  processes : List Process
  pc : ConverterPC

/-- What `query` brings: nothing because a call failed, or what the server selected. -/
inductive QueryResult
  | failed
  | selected (id : Option Nat)
  deriving DecidableEq, Repr

/-- The converter's steps, and what others do meanwhile: a process ends, the web
service adds a row. -/
inductive ConverterAction
  | query (result : QueryResult)
  | createProcess (isOk : Bool)
  | wait (result : WaitResult)
  | update (calls : UpdateCalls)
  /-- the end of the loop over `rlist`, or an exception caught in it -/
  | clear
  | processEnds (k : Nat)
  | srcAdded (v : Visual)
  deriving DecidableEq, Repr

/-- `SELECT * FROM visuals WHERE mediasubtype=1 LIMIT 1` may return this row. -/
def isPending (visuals : NodeList Visual) (id : Nat) : Bool :=
  match visuals.get? id with
  | none => false
  | some v => v.mediasubtype = some 1

def queryStep (s : Converter) : QueryResult → Except ConverterHalt Converter
  | .failed => .ok { s with pc := .rows [] }
  | .selected none =>
    if s.visuals.addrs.any (isPending s.visuals) then .error .disabled
    else .ok { s with pc := .rows [] }
  | .selected (some id) =>
    match s.visuals.get? id with
    | none => .error .disabled
    | some v =>
      if v.mediasubtype = some 1 then do
        let row ← fetchRow id v
        .ok { s with pc := .rows [row] }
      else .error .disabled

def waitStep (s : Converter) (row : FetchedRow) (rest : List FetchedRow) (k : Nat)
    (result : WaitResult) : Except ConverterHalt Converter :=
  match s.processes[k]? with
  | none => .error .disabled
  | some p =>
    -- the process is signaled when it has ended; a timeout finds it running
    if (result = .object0 ∧ p.hasEnded = false) ∨ (result = .timeout ∧ p.hasEnded = true) then
      .error .disabled
    else .ok { s with pc := .converted row rest (.waited k result) }

def converterStep (cfg : ConverterConfig) (s : Converter) :
    ConverterAction → Except ConverterHalt Converter
  | .query result =>
    match s.pc with
    | .polling => queryStep s result
    | _ => .error .disabled
  | .createProcess isOk =>
    match s.pc with
    | .rows (row :: rest) =>
      if sParamsSize < (convertParams cfg row.filepath).length + 1 then .error .bufferOverflow
      else if isOk then .ok { s with
        processes := s.processes ++ [Process.ofRow cfg row.filepath]
        pc := .waiting row rest s.processes.length }
      else .ok { s with pc := .converted row rest .notStarted }
    | _ => .error .disabled
  | .wait result =>
    match s.pc with
    | .waiting row rest k => waitStep s row rest k result
    | _ => .error .disabled
  | .update calls =>
    match s.pc with
    | .converted row rest attempt =>
      .ok { s with
        visuals := if convertResult attempt.iReturnVal then updateVisual s.visuals row.id calls
          else s.visuals
        pc := .rows rest }
    | _ => .error .disabled
  | .clear =>
    match s.pc with
    | .waiting _ _ _ => .error .disabled
    | _ => .ok { s with pc := .polling }
  | .processEnds k =>
    match s.processes[k]? with
    | none => .error .disabled
    | some p => .ok { s with processes := s.processes.set k { p with hasEnded := true } }
  | .srcAdded v => .ok { s with visuals := s.visuals.pushBack v }

/-- `main` after `initConfig`. -/
def startConverter (visuals : NodeList Visual) : Converter := ⟨visuals, [], .polling⟩

/-! ## The law -/

/-- The conversion did not happen: the process was not started, or the wait for it
timed out. -/
def Attempt.Fails : Attempt → Prop
  | .notStarted => True
  | .waited _ result => result = .timeout

/-- `convert` has returned for row `id`, whose own process was started in it and has
ended. -/
def OwnProcessEnded (cfg : ConverterConfig) (s : Converter) (id : Nat) : Prop :=
  ∃ row rest k result p v f, s.pc = .converted row rest (.waited k result) ∧ row.id = id ∧
    s.processes[k]? = some p ∧ p.hasEnded = true ∧ s.visuals.get? id = some v ∧
    v.filepath = some f ∧ p.commandLine = (Process.ofRow cfg (cStr f)).commandLine

/-- A poll finds the row: the server may return it and does not come back empty, and if no
other row waits it has nothing else to return. -/
structure FindsAgain (cfg : ConverterConfig) (w : Converter) (row : FetchedRow) : Prop where
  mayReturn : ∃ x, converterStep cfg w (.query (.selected (some row.id))) = .ok x ∧
    x.pc = .rows [row]
  notEmpty : converterStep cfg w (.query (.selected none)) = .error .disabled
  only : (∀ id, isPending w.visuals id = true → id = row.id) → ∀ id x,
    converterStep cfg w (.query (.selected id)) = .ok x → x.pc = .rows [row]

/-- The law for a run: a row is marked only after its process ended; a row whose
conversion failed stays pending after `update`, the next iteration polls and finds it,
and so does every later poll while it is pending. -/
structure ConversionLaw (cfg : ConverterConfig) (visuals : NodeList Visual)
    (as : List ConverterAction) : Prop where
  marked : ∀ q ∈ trail (converterStep cfg) (startConverter visuals) as, ∀ u,
    converterStep cfg q.1 q.2 = .ok u → ∀ id, isPending q.1.visuals id = true →
      isPending u.visuals id = false → OwnProcessEnded cfg q.1 id
  kept : ∀ q ∈ trail (converterStep cfg) (startConverter visuals) as, ∀ u calls,
    q.2 = .update calls → converterStep cfg q.1 q.2 = .ok u → ∀ row rest attempt,
      q.1.pc = .converted row rest attempt → attempt.Fails → isPending u.visuals row.id = true ∧
        ∃ w, converterStep cfg u .clear = .ok w ∧ FindsAgain cfg w row
  again : ∀ bs t cs w, bs ++ cs <+: as →
    run (converterStep cfg) (startConverter visuals) bs = .ok t →
    run (converterStep cfg) t cs = .ok w → ∀ row rest attempt,
      t.pc = .converted row rest attempt → attempt.Fails → w.pc = .polling →
      isPending w.visuals row.id = true → FindsAgain cfg w row

/-- The calls outside go well in a step: no process fails to start, and no wait returns
before its process has ended. -/
def ConversionSucceeds (cfg : ConverterConfig) (s : Converter) (a : ConverterAction) : Prop :=
  ∀ t, converterStep cfg s a = .ok t → a ≠ .createProcess false ∧
    ∀ result row rest k, a = .wait result → s.pc = .waiting row rest k →
      ∃ p, s.processes[k]? = some p ∧ p.hasEnded = true

/-- The process was started, and it has ended: the wait found it signaled, or failed
although it had ended. -/
def Attempt.IsConcluded (processes : List Process) : Attempt → Prop
  | .notStarted => False
  | .waited _ .object0 => True
  | .waited _ .timeout => False
  | .waited k .failed => ∃ p, processes[k]? = some p ∧ p.hasEnded = true

/-- The update statement does not take effect unless the conversion was concluded. -/
def UpdatesConcluded (s : Converter) (a : ConverterAction) : Prop :=
  ∀ calls, a = .update calls → calls.takesEffect = true → ∀ row rest attempt,
    s.pc = .converted row rest attempt → attempt.IsConcluded s.processes

/-! ## What a step does -/

/-- The steps, with the tests they passed. -/
inductive ConverterEffect (cfg : ConverterConfig) (s : Converter) :
    ConverterAction → Converter → Prop
  | noRows {result} (pc : s.pc = .polling) :
    ConverterEffect cfg s (.query result) { s with pc := .rows [] }
  | fetch {id v row} (pc : s.pc = .polling) (get : s.visuals.get? id = some v)
    (pending : v.mediasubtype = some 1) (fetched : fetchRow id v = .ok row) :
    ConverterEffect cfg s (.query (.selected (some id))) { s with pc := .rows [row] }
  | started {row rest} (pc : s.pc = .rows (row :: rest)) :
    ConverterEffect cfg s (.createProcess true) { s with
      processes := s.processes ++ [Process.ofRow cfg row.filepath]
      pc := .waiting row rest s.processes.length }
  | notStarted {row rest} (pc : s.pc = .rows (row :: rest)) :
    ConverterEffect cfg s (.createProcess false) { s with pc := .converted row rest .notStarted }
  | waited {row rest k result p} (pc : s.pc = .waiting row rest k)
    (process : s.processes[k]? = some p) (signaled : result = .object0 → p.hasEnded = true)
    (running : result = .timeout → p.hasEnded = false) :
    ConverterEffect cfg s (.wait result) { s with pc := .converted row rest (.waited k result) }
  | updated {row rest attempt calls} (pc : s.pc = .converted row rest attempt) :
    ConverterEffect cfg s (.update calls)
      { s with visuals := updateVisual s.visuals row.id calls, pc := .rows rest }
  | clear : ConverterEffect cfg s .clear { s with pc := .polling }
  | processEnds {k p} (process : s.processes[k]? = some p) :
    ConverterEffect cfg s (.processEnds k)
      { s with processes := s.processes.set k { p with hasEnded := true } }
  | srcAdded {v} : ConverterEffect cfg s (.srcAdded v) { s with visuals := s.visuals.pushBack v }

section
variable {cfg : ConverterConfig} {s t : Converter} {a : ConverterAction}

theorem queryStep_cases {result : QueryResult} (hpc : s.pc = .polling)
    (h : queryStep s result = .ok t) : ConverterEffect cfg s (.query result) t := by
  cases result with
  | failed =>
    cases h
    exact .noRows hpc
  | selected id =>
    cases id with
    | none =>
      simp only [queryStep] at h
      split at h
      · cases h
      · cases h
        exact .noRows hpc
    | some id =>
      simp only [queryStep] at h
      split at h
      · cases h
      · next v hv =>
        split at h
        · next hpending =>
          obtain ⟨row, hrow, h⟩ := bind_eq_ok.mp h
          cases h
          exact .fetch hpc hv hpending hrow
        · cases h

theorem converterStep_cases (h : converterStep cfg s a = .ok t) : ConverterEffect cfg s a t := by
  cases a with
  | query result =>
    simp only [converterStep] at h
    split at h
    · next hpc => exact queryStep_cases hpc h
    · cases h
  | createProcess isOk =>
    simp only [converterStep] at h
    split at h
    · next row rest hpc =>
      split at h
      · cases h
      · cases isOk <;> cases h
        · exact .notStarted hpc
        · exact .started hpc
    · cases h
  | wait result =>
    simp only [converterStep] at h
    split at h
    · next row rest k hpc =>
      simp only [waitStep] at h
      split at h
      · cases h
      · next p hp =>
        split at h
        · cases h
        · next hallowed =>
          cases h
          refine .waited hpc hp (fun hobject => ?_) fun htimeout => ?_
          · by_contra hrunning
            exact hallowed (.inl ⟨hobject, by simpa using hrunning⟩)
          · by_contra hended
            exact hallowed (.inr ⟨htimeout, by simpa using hended⟩)
    · cases h
  | update calls =>
    simp only [converterStep] at h
    split at h
    · next row rest attempt hpc =>
      cases h
      exact .updated hpc
    · cases h
  | clear =>
    simp only [converterStep] at h
    split at h
    · cases h
    · cases h
      exact .clear
  | processEnds k =>
    simp only [converterStep] at h
    split at h
    · cases h
    · next p hp =>
      cases h
      exact .processEnds hp
  | srcAdded v =>
    cases h
    exact .srcAdded

/-! ## What holds in every run -/

theorem isPending_iff {visuals : NodeList Visual} {id : Nat} : isPending visuals id = true ↔
    ∃ v, visuals.get? id = some v ∧ v.mediasubtype = some 1 := by
  unfold isPending
  cases visuals.get? id with
  | none => simp
  | some v => simp

/-- The rows still in hand. -/
def ConverterPC.inHand : ConverterPC → List FetchedRow
  | .polling => []
  | .rows rlist => rlist
  | .waiting row rest _ => row :: rest
  | .converted row rest _ => row :: rest

/-- The process of the conversion at hand. -/
def ConverterPC.process? : ConverterPC → Option Nat
  | .waiting _ _ k => some k
  | .converted _ _ (.waited k _) => some k
  | _ => none

/-- A row in hand is the table's row as it was fetched, and still pending. -/
def IsFetched (visuals : NodeList Visual) (row : FetchedRow) : Prop :=
  ∃ v, visuals.get? row.id = some v ∧ v.mediasubtype = some 1 ∧ fetchRow row.id v = .ok row

structure ConverterShape (cfg : ConverterConfig) (s : Converter) : Prop where
  fetched : ∀ row ∈ s.pc.inHand, IsFetched s.visuals row
  single : s.pc.inHand.length ≤ 1
  own : ∀ k, s.pc.process? = some k → ∀ row ∈ s.pc.inHand, ∃ p, s.processes[k]? = some p ∧
    p.commandLine = (Process.ofRow cfg row.filepath).commandLine
  signaled : ∀ row rest k, s.pc = .converted row rest (.waited k .object0) →
    ∃ p, s.processes[k]? = some p ∧ p.hasEnded = true

theorem fetchRow_ok {id : Nat} {v : Visual} {row : FetchedRow} (h : fetchRow id v = .ok row) :
    row.id = id ∧ ∃ f, v.filepath = some f ∧ row.filepath = cStr f := by
  unfold fetchRow at h
  split at h
  · next f _ _ _ _ _ =>
    cases h
    exact ⟨rfl, f, rfl, rfl⟩
  · cases h

theorem IsFetched.pushBack {visuals : NodeList Visual} {row : FetchedRow}
    (h : IsFetched visuals row) (v : Visual) : IsFetched (visuals.pushBack v) row := by
  obtain ⟨v', hv', hrest⟩ := h
  exact ⟨v', NodeList.get?_pushBack_of_eq_some hv' v, hrest⟩

/-- A process that ends keeps its command line. -/
theorem getElem?_set_ended {processes : List Process} {k j : Nat} {p q : Process}
    (hp : processes[k]? = some p) (hq : processes[j]? = some q) :
    ∃ q', (processes.set k { p with hasEnded := true })[j]? = some q' ∧
      q'.commandLine = q.commandLine ∧ (q.hasEnded = true → q'.hasEnded = true) := by
  by_cases hkj : k = j
  · subst hkj
    obtain rfl : p = q := Option.some.inj (hp.symm.trans hq)
    obtain ⟨hlt, -⟩ := List.getElem?_eq_some_iff.mp hp
    exact ⟨_, List.getElem?_set_self hlt, rfl, fun _ => rfl⟩
  · exact ⟨q, by rw [List.getElem?_set_ne hkj, hq], rfl, id⟩

namespace ConverterShape

/-- Nothing is asked of a converter with no row in hand. -/
theorem of_inHand_nil (h : s.pc.inHand = []) : ConverterShape cfg s := by
  refine ⟨fun row hrow => ?_, by rw [h]; exact Nat.zero_le 1, fun k _ row hrow => ?_,
    fun row rest k hpc => ?_⟩
  · rw [h] at hrow
    cases hrow
  · rw [h] at hrow
    cases hrow
  · rw [hpc] at h
    cases h

/-- `LIMIT 1`: the list holds the one row at hand. -/
theorem inHand_eq {row : FetchedRow} {rest : List FetchedRow} (h : ConverterShape cfg s)
    (hin : s.pc.inHand = row :: rest) :
    rest = [] ∧ ∀ row' ∈ [row], IsFetched s.visuals row' := by
  have hsingle := h.single
  have hfetched := h.fetched
  rw [hin] at hsingle hfetched
  obtain rfl : rest = [] := by
    rw [List.length_cons] at hsingle
    exact List.length_eq_zero_iff.mp (by omega)
  exact ⟨rfl, hfetched⟩

theorem after (h : ConverterShape cfg s) (e : ConverterEffect cfg s a t) : ConverterShape cfg t := by
  cases e with
  | noRows pc => exact of_inHand_nil rfl
  | @fetch id v row pc get pending fetched =>
    have hrow : ∀ row' ∈ [row], IsFetched s.visuals row' := by
      intro row' hrow'
      obtain rfl := List.mem_singleton.mp hrow'
      -- the fetched row carries the id it was fetched by
      have hid := (fetchRow_ok fetched).1
      exact ⟨v, hid ▸ get, pending, hid.symm ▸ fetched⟩
    exact ⟨hrow, le_refl 1, (fun _ h => by cases h), (fun _ _ _ h => by cases h)⟩
  | @started row rest pc =>
    obtain ⟨rfl, hfetched⟩ := h.inHand_eq (by rw [pc]; rfl : s.pc.inHand = row :: rest)
    refine ⟨hfetched, le_refl 1, fun k hk row' hrow' => ?_, (fun _ _ _ h => by cases h)⟩
    obtain rfl := List.mem_singleton.mp hrow'
    cases hk
    exact ⟨_, List.getElem?_concat_length, rfl⟩
  | @notStarted row rest pc =>
    obtain ⟨rfl, hfetched⟩ := h.inHand_eq (by rw [pc]; rfl : s.pc.inHand = row :: rest)
    exact ⟨hfetched, le_refl 1, (fun _ h => by cases h), (fun _ _ _ h => by cases h)⟩
  | @waited row rest k result p pc process signaled running =>
    have hown := h.own k (by rw [pc]; rfl)
    rw [pc] at hown
    obtain ⟨rfl, hfetched⟩ := h.inHand_eq (by rw [pc]; rfl : s.pc.inHand = row :: rest)
    refine ⟨hfetched, le_refl 1, fun k' hk => ?_, fun row' rest' k' hk => ?_⟩
    · cases hk
      exact hown
    · cases hk
      exact ⟨p, process, signaled rfl⟩
  | @updated row rest attempt calls pc =>
    obtain ⟨rfl, -⟩ := h.inHand_eq (by rw [pc]; rfl : s.pc.inHand = row :: rest)
    exact of_inHand_nil rfl
  | clear => exact of_inHand_nil rfl
  | @processEnds k p process =>
    refine ⟨h.fetched, h.single, fun j hj row hrow => ?_, fun row rest j hj => ?_⟩
    · obtain ⟨q, hq, hcmd⟩ := h.own j hj row hrow
      obtain ⟨q', hq', hcmd', -⟩ := getElem?_set_ended process hq
      exact ⟨q', hq', hcmd'.trans hcmd⟩
    · obtain ⟨q, hq, hended⟩ := h.signaled row rest j hj
      obtain ⟨q', hq', -, hended'⟩ := getElem?_set_ended process hq
      exact ⟨q', hq', hended' hended⟩
  | srcAdded => exact ⟨fun row hrow => (h.fetched row hrow).pushBack _, h.single, h.own, h.signaled⟩

end ConverterShape

theorem converterShape_of_run {visuals : NodeList Visual} {as : List ConverterAction}
    (h : run (converterStep cfg) (startConverter visuals) as = .ok s) : ConverterShape cfg s :=
  run_invariant (fun _ _ _ hs hst => hs.after (converterStep_cases hst))
    (.of_inHand_nil rfl) h

/-! ## Marking a row -/

theorem IsFetched.isPending {visuals : NodeList Visual} {row : FetchedRow}
    (h : IsFetched visuals row) : isPending visuals row.id = true := by
  obtain ⟨v, hv, hsub, -⟩ := h
  exact isPending_iff.mpr ⟨v, hv, hsub⟩

theorem isPending_pushBack {visuals : NodeList Visual} {id : Nat} (v : Visual)
    (h : isPending visuals id = true) : isPending (visuals.pushBack v) id = true := by
  obtain ⟨v', hv', hsub⟩ := isPending_iff.mp h
  exact isPending_iff.mpr ⟨v', NodeList.get?_pushBack_of_eq_some hv' v, hsub⟩

theorem get?_updateVisual (visuals : NodeList Visual) (id id' : Nat) (c : UpdateCalls) :
    (updateVisual visuals id c).get? id' = (visuals.get? id').map fun v =>
      if c.takesEffect = true ∧ id' = id then { v with mediasubtype := some 2 } else v := by
  unfold updateVisual
  by_cases hc : c.takesEffect = true
  · rw [if_pos hc, NodeList.modify, NodeList.get?_alter]
    simp only [hc, true_and]
  · have hsame : ∀ v : Visual, (if c.takesEffect = true ∧ id' = id then
        { v with mediasubtype := some 2 } else v) = v := fun v => if_neg fun h => hc h.1
    simp only [if_neg hc, hsame, Option.map_id']

/-- A statement that takes effect marks its row and no other. -/
theorem isPending_updateVisual (visuals : NodeList Visual) (id id' : Nat) (c : UpdateCalls) :
    isPending (updateVisual visuals id c) id' = true ↔
      isPending visuals id' = true ∧ ¬ (c.takesEffect = true ∧ id' = id) := by
  simp only [isPending_iff, get?_updateVisual, Option.map_eq_some_iff]
  constructor
  · rintro ⟨_, ⟨v, hv, rfl⟩, hsub⟩
    by_cases hmark : c.takesEffect = true ∧ id' = id
    · rw [if_pos hmark] at hsub
      cases hsub
    · rw [if_neg hmark] at hsub
      exact ⟨⟨v, hv, hsub⟩, hmark⟩
  · rintro ⟨⟨v, hv, hsub⟩, hmark⟩
    exact ⟨_, ⟨v, hv, rfl⟩, by rw [if_neg hmark]; exact hsub⟩

/-- Only an update that takes effect ends a row's waiting. -/
theorem ConverterEffect.marks (e : ConverterEffect cfg s a t) {id : Nat}
    (hbefore : isPending s.visuals id = true) (hafter : isPending t.visuals id = false) :
    ∃ row rest attempt calls, a = .update calls ∧ s.pc = .converted row rest attempt ∧
      row.id = id ∧ calls.takesEffect = true := by
  have hsame : t.visuals ≠ s.visuals := fun h => by
    rw [h, hbefore] at hafter
    cases hafter
  cases e with
  | @updated row rest attempt calls pc =>
    have hmark : calls.takesEffect = true ∧ id = row.id := by
      by_contra hmark
      rw [(isPending_updateVisual _ _ _ _).mpr ⟨hbefore, hmark⟩] at hafter
      cases hafter
    exact ⟨row, rest, attempt, calls, rfl, pc, hmark.2.symm, hmark.1⟩
  | @srcAdded v =>
    rw [isPending_pushBack v hbefore] at hafter
    cases hafter
  | _ => exact absurd rfl hsame

/-- Whatever the converter does, a row only changes its `mediasubtype`. -/
theorem row_kept {as : List ConverterAction} {id : Nat} {v : Visual}
    (h : run (converterStep cfg) s as = .ok t) (hv : s.visuals.get? id = some v) :
    ∃ m, t.visuals.get? id = some { v with mediasubtype := m } := by
  have hkeeps : ∀ (s : Converter) a t,
      (∃ m, s.visuals.get? id = some { v with mediasubtype := m }) →
      converterStep cfg s a = .ok t →
      ∃ m, t.visuals.get? id = some { v with mediasubtype := m } := by
    rintro s a t ⟨m, hm⟩ hst
    cases converterStep_cases hst with
    | @updated row rest attempt calls pc =>
      simp only [get?_updateVisual, hm, Option.map_some]
      split
      · exact ⟨some 2, rfl⟩
      · exact ⟨m, rfl⟩
    | srcAdded => exact ⟨m, NodeList.get?_pushBack_of_eq_some hm _⟩
    | _ => exact ⟨m, hm⟩
  exact run_invariant hkeeps ⟨v.mediasubtype, hv⟩ h

namespace ConverterShape

/-- A concluded conversion is one of the row's own file, whose process has ended. -/
theorem ownProcessEnded (h : ConverterShape cfg s) {row : FetchedRow} {rest : List FetchedRow}
    {attempt : Attempt} (hpc : s.pc = .converted row rest attempt)
    (hdone : attempt.IsConcluded s.processes) : OwnProcessEnded cfg s row.id := by
  obtain ⟨-, hrow⟩ := h.inHand_eq (by rw [hpc]; rfl : s.pc.inHand = row :: rest)
  obtain ⟨v, hv, -, hfetch⟩ := hrow row (List.mem_singleton_self row)
  obtain ⟨-, f, hf, hpath⟩ := fetchRow_ok hfetch
  cases attempt with
  | notStarted => exact hdone.elim
  | waited k result =>
    obtain ⟨p, hp, hcmd⟩ := h.own k (by rw [hpc]; rfl) row (by rw [hpc]; exact List.mem_cons_self)
    have hended : p.hasEnded = true := by
      have hsome : ∃ p, s.processes[k]? = some p ∧ p.hasEnded = true := by
        cases result with
        | object0 => exact h.signaled row rest k hpc
        | timeout => exact hdone.elim
        | failed => exact hdone
      obtain ⟨p', hp', hended⟩ := hsome
      obtain rfl := Option.some.inj (hp.symm.trans hp')
      exact hended
    exact ⟨row, rest, k, result, p, v, f, hpc, rfl, hp, hended, hv, hf, hpath ▸ hcmd⟩

/-- While a row that was in hand is pending, a poll finds it. -/
theorem findsAgain (h : ConverterShape cfg s) {as : List ConverterAction} {row : FetchedRow}
    {rest : List FetchedRow} (hin : s.pc.inHand = row :: rest)
    (hrun : run (converterStep cfg) s as = .ok t) (hpc : t.pc = .polling)
    (hpending : isPending t.visuals row.id = true) : FindsAgain cfg t row := by
  obtain ⟨-, hrow⟩ := h.inHand_eq hin
  obtain ⟨v, hv, hsub, hfetch⟩ := hrow row (List.mem_singleton_self row)
  obtain ⟨m, hm⟩ := row_kept hrun hv
  -- the row differs in nothing but `mediasubtype`, and that is 1 again
  obtain ⟨v', hv', hsub'⟩ := isPending_iff.mp hpending
  obtain rfl := Option.some.inj (hv'.symm.trans hm)
  obtain rfl : m = some 1 := hsub'
  have hsame : { v with mediasubtype := some 1 } = v := by rw [← hsub]
  rw [hsame] at hm
  have hselect : converterStep cfg t (.query (.selected (some row.id))) =
      .ok { t with pc := .rows [row] } := by
    simp only [converterStep, hpc, queryStep, hm, hsub, if_true, hfetch, ok_bind]
  have hempty : converterStep cfg t (.query (.selected none)) = .error .disabled := by
    have hmem : row.id ∈ t.visuals.addrs := NodeList.get?_isSome_iff.mp (by rw [hm]; rfl)
    simp only [converterStep, hpc, queryStep]
    rw [if_pos (List.any_eq_true.mpr ⟨row.id, hmem, hpending⟩)]
  refine ⟨⟨_, hselect, rfl⟩, hempty, fun honly id x hx => ?_⟩
  cases id with
  | none =>
    rw [hempty] at hx
    cases hx
  | some id =>
    have hid : isPending t.visuals id = true := by
      cases converterStep_cases hx with
      | noRows pc =>
        simp only [converterStep, hpc, queryStep] at hx
        split at hx
        · cases hx
        · next v hv =>
          split at hx
          · next hsub => exact isPending_iff.mpr ⟨v, hv, hsub⟩
          · cases hx
      | fetch pc get pending fetched => exact isPending_iff.mpr ⟨_, get, pending⟩
    rw [honly id hid, hselect] at hx
    cases hx
    rfl

/-- A row in hand whose update does not take effect stays pending, and the next iteration
finds it. -/
theorem retried (h : ConverterShape cfg s) {row : FetchedRow} {rest : List FetchedRow}
    {attempt : Attempt} (hpc : s.pc = .converted row rest attempt) {calls : UpdateCalls}
    (hfail : calls.takesEffect = false) (hst : converterStep cfg s (.update calls) = .ok t) :
    isPending t.visuals row.id = true ∧
      ∃ w, converterStep cfg t .clear = .ok w ∧ FindsAgain cfg w row := by
  have hin : s.pc.inHand = row :: rest := by rw [hpc]; rfl
  obtain ⟨rfl, hrow⟩ := h.inHand_eq hin
  have hpending : isPending t.visuals row.id = true := by
    simp only [converterStep, hpc, convertResult, if_true] at hst
    cases hst
    refine (isPending_updateVisual _ _ _ _).mpr
      ⟨(hrow row (List.mem_singleton_self row)).isPending, fun heffect => ?_⟩
    rw [hfail] at heffect
    cases heffect.1
  have hclear : converterStep cfg t .clear = .ok { t with pc := .polling } := by
    simp only [converterStep, hpc, convertResult, if_true] at hst
    cases hst
    rfl
  have hrun : run (converterStep cfg) s [.update calls, .clear] =
      .ok { t with pc := .polling } := by rw [run_cons hst, run_singleton, hclear]
  exact ⟨hpending, _, hclear, h.findsAgain hin hrun rfl hpending⟩

end ConverterShape

/-- It is enough that no update takes effect without a concluded conversion. -/
theorem conversionLaw_of_updatesConcluded {visuals : NodeList Visual} {as : List ConverterAction}
    (hcond : Throughout (converterStep cfg) UpdatesConcluded (startConverter visuals) as) :
    ConversionLaw cfg visuals as := by
  refine ⟨?_, ?_, ?_⟩
  · rintro ⟨s, a⟩ hq u hst id hbefore hafter
    obtain ⟨bs, cs, -, hbs⟩ := mem_trail hq
    obtain ⟨row, rest, attempt, calls, ha, hpc, rfl, heffect⟩ :=
      (converterStep_cases hst).marks hbefore hafter
    exact (converterShape_of_run hbs).ownProcessEnded hpc
      (hcond _ hq calls ha heffect row rest attempt hpc)
  · rintro ⟨s, a⟩ hq u calls rfl hst row rest attempt hpc hfails
    obtain ⟨bs, cs, -, hbs⟩ := mem_trail hq
    refine (converterShape_of_run hbs).retried hpc (Bool.eq_false_iff.mpr fun heffect => ?_) hst
    have hdone := hcond _ hq calls rfl heffect row rest attempt hpc
    cases attempt with
    | notStarted => exact hdone
    | waited k result =>
      obtain rfl : result = .timeout := hfails
      exact hdone
  · intro bs t cs w _ hbs hcs row rest attempt hpc _ hpolling hpending
    exact (converterShape_of_run hbs).findsAgain (by rw [hpc]; rfl) hcs hpolling hpending

/-- Between `convert` and `update` the conversion is concluded. -/
def Concluded (s : Converter) : Prop :=
  ∀ row rest attempt, s.pc = .converted row rest attempt → attempt.IsConcluded s.processes

theorem ConverterEffect.concluded (e : ConverterEffect cfg s a t)
    (hsucceeds : ConversionSucceeds cfg s a) (hst : converterStep cfg s a = .ok t)
    (h : Concluded s) : Concluded t := by
  intro row rest attempt hpc
  obtain ⟨hcreate, hwait⟩ := hsucceeds t hst
  cases e with
  | notStarted => exact absurd rfl hcreate
  | @waited row rest k result p pc process signaled running =>
    obtain ⟨p', hp', hended⟩ := hwait result row rest k rfl pc
    obtain rfl := Option.some.inj (process.symm.trans hp')
    cases hpc
    cases result with
    | object0 => trivial
    | timeout =>
      rw [running rfl] at hended
      cases hended
    | failed => exact ⟨p, process, hended⟩
  | @processEnds j p process =>
    have hdone := h row rest attempt hpc
    cases attempt with
    | notStarted => exact hdone
    | waited k result =>
      cases result with
      | object0 => trivial
      | timeout => exact hdone
      | failed =>
        obtain ⟨q, hq, hended⟩ := hdone
        obtain ⟨q', hq', -, hended'⟩ := getElem?_set_ended process hq
        exact ⟨q', hq', hended' hended⟩
  | srcAdded => exact h row rest attempt hpc
  | _ => cases hpc

theorem updatesConcluded_of_succeeds {visuals : NodeList Visual} {as : List ConverterAction}
    (h : Throughout (converterStep cfg) (ConversionSucceeds cfg) (startConverter visuals) as) :
    Throughout (converterStep cfg) UpdatesConcluded (startConverter visuals) as := by
  rintro ⟨s, a⟩ hq calls - - row rest attempt hpc
  obtain ⟨bs, cs, rfl, hbs⟩ := mem_trail hq
  refine run_invariant_of_throughout (P := Concluded)
    (fun s a t hs hc hst => (converterStep_cases hst).concluded hc hst hs) ?_ hbs
    ((throughout_append_iff hbs _).mp h).1 row rest attempt hpc
  rintro row rest attempt ⟨⟩

/-- After a conversion that is not concluded the law is broken as soon as the calls of
`update` succeed. -/
theorem not_conversionLaw {visuals : NodeList Visual} {as : List ConverterAction}
    (hrun : run (converterStep cfg) (startConverter visuals) as = .ok s) {row : FetchedRow}
    {rest : List FetchedRow} {attempt : Attempt} (hpc : s.pc = .converted row rest attempt)
    (hnot : ¬ attempt.IsConcluded s.processes) :
    ¬ ConversionLaw cfg visuals (as ++ [.update ⟨true, true, true, true, true⟩]) := by
  intro law
  obtain ⟨-, hrow⟩ := (converterShape_of_run hrun).inHand_eq
    (by rw [hpc]; rfl : s.pc.inHand = row :: rest)
  have hst : converterStep cfg s (.update ⟨true, true, true, true, true⟩) = .ok { s with
      visuals := updateVisual s.visuals row.id ⟨true, true, true, true, true⟩
      pc := .rows rest } := by
    simp only [converterStep, hpc, convertResult, if_true]
  have hafter : isPending (updateVisual s.visuals row.id ⟨true, true, true, true, true⟩) row.id =
      false := by
    rw [← Bool.not_eq_true, isPending_updateVisual]
    exact fun h => h.2 ⟨rfl, rfl⟩
  have hlast : (s, ConverterAction.update ⟨true, true, true, true, true⟩) ∈
      trail (converterStep cfg) (startConverter visuals)
        (as ++ [.update ⟨true, true, true, true, true⟩]) := by
    rw [trail_snoc hrun]
    exact List.mem_append_right _ (List.mem_singleton_self _)
  obtain ⟨row', rest', k, result, p, -, -, hpc', -, hp, hended, -⟩ := law.marked _ hlast _ hst row.id
    (hrow row (List.mem_singleton_self row)).isPending hafter
  obtain ⟨rfl, rfl, rfl⟩ : row = row' ∧ rest = rest' ∧ attempt = .waited k result := by
    simpa using hpc.symm.trans hpc'
  cases result with
  | object0 => exact hnot trivial
  | timeout =>
    have hkept := (law.kept _ hlast _ _ rfl hst row rest _ hpc rfl).1
    rw [hafter] at hkept
    cases hkept
  | failed => exact hnot ⟨p, hp, hended⟩

/-- A step in which a call outside goes wrong leaves a conversion that is not concluded. -/
theorem exists_not_concluded (hnot : ¬ ConversionSucceeds cfg s a) :
    ∃ t, converterStep cfg s a = .ok t ∧ ∃ row rest attempt,
      t.pc = .converted row rest attempt ∧ ¬ attempt.IsConcluded t.processes := by
  unfold ConversionSucceeds at hnot
  push Not at hnot
  obtain ⟨t, hst, hfails⟩ := hnot
  refine ⟨t, hst, ?_⟩
  by_cases hcreate : a = .createProcess false
  · subst hcreate
    cases converterStep_cases hst with
    | @notStarted row rest pc => exact ⟨row, rest, _, rfl, fun h => h⟩
  · obtain ⟨result, row, rest, k, rfl, hpc, hrunning⟩ := hfails hcreate
    cases converterStep_cases hst with
    | @waited row' rest' k' _ p pc process signaled running =>
      obtain ⟨rfl, rfl, rfl⟩ : row = row' ∧ rest = rest' ∧ k = k' := by
        simpa using hpc.symm.trans pc
      refine ⟨row, rest, _, rfl, fun hdone => ?_⟩
      cases result with
      | object0 => exact hrunning p process (signaled rfl)
      | timeout => exact hdone
      | failed =>
        obtain ⟨q, hq, hended⟩ := hdone
        exact hrunning q hq hended

/-- For every table, every configuration and every run: the law holds if no process fails
to start and no wait returns before its process has ended. It holds whenever updates
succeed only if they do. And whatever happened before, a row whose conversion failed is
found again once its update has failed too. -/
theorem conversionLaw_iff (cfg : ConverterConfig) (visuals : NodeList Visual)
    (as : List ConverterAction) :
    (Throughout (converterStep cfg) (ConversionSucceeds cfg) (startConverter visuals) as →
      ConversionLaw cfg visuals as) ∧
    ((∀ bs s, bs <+: as → run (converterStep cfg) (startConverter visuals) bs = .ok s →
        ConversionLaw cfg visuals (bs ++ [.update ⟨true, true, true, true, true⟩])) ↔
      Throughout (converterStep cfg) (ConversionSucceeds cfg) (startConverter visuals) as) ∧
    ∀ s, run (converterStep cfg) (startConverter visuals) as = .ok s → ∀ row rest attempt,
      s.pc = .converted row rest attempt → attempt.Fails → ∀ calls t,
        calls.takesEffect = false → converterStep cfg s (.update calls) = .ok t →
          isPending t.visuals row.id = true ∧
            ∃ w, converterStep cfg t .clear = .ok w ∧ FindsAgain cfg w row := by
  have henough : ∀ bs, Throughout (converterStep cfg) (ConversionSucceeds cfg)
      (startConverter visuals) bs → ConversionLaw cfg visuals bs := fun bs h =>
    conversionLaw_of_updatesConcluded (updatesConcluded_of_succeeds h)
  refine ⟨henough as, ⟨fun hlaw => ?_, ?_⟩, ?_⟩
  · rintro ⟨s, a⟩ hq
    obtain ⟨bs, cs, rfl, hbs⟩ := mem_trail hq
    by_contra hnot
    obtain ⟨t, hst, row, rest, attempt, hpc, hdone⟩ := exists_not_concluded hnot
    have hrun := run_snoc_iff.mpr ⟨s, hbs, hst⟩
    exact not_conversionLaw hrun hpc hdone (hlaw (bs ++ [a]) t ⟨cs, by simp⟩ hrun)
  · rintro h bs s ⟨cs, rfl⟩ hbs
    -- an update is none of the calls that may go wrong
    have hupdate : ConversionSucceeds cfg s (.update ⟨true, true, true, true, true⟩) :=
      fun t _ => ⟨(fun h => by cases h), fun _ _ _ _ h => by cases h⟩
    exact henough _ ((throughout_snoc_iff hbs _).mpr ⟨((throughout_append_iff hbs cs).mp h).1, hupdate⟩)
  · intro s hrun row rest attempt hpc _ calls t hfail hst
    exact (converterShape_of_run hrun).retried hpc hfail hst

end

/-- One row with subtype 1, and a run in which ffmpeg cannot be started for it. -/
def oneVisual : NodeList Visual :=
  NodeList.empty.pushBack ⟨some "1".toList, some 0, some 1, some [], some 0, some 0⟩

/-- The row is marked as converted though its conversion was never started. -/
theorem marked_without_conversion : ¬ ConversionLaw ⟨"C:".toList, "D:".toList⟩ oneVisual
    [.query (.selected (some 0)), .createProcess false, .update ⟨true, true, true, true, true⟩] := by
  have hruns : returns (fun s => decide (s.pc = .converted ⟨0, "1".toList⟩ [] .notStarted) &&
      returns (fun t => decide (isPending t.visuals 0 = false))
        (converterStep ⟨"C:".toList, "D:".toList⟩ s (.update ⟨true, true, true, true, true⟩)))
      (run (converterStep ⟨"C:".toList, "D:".toList⟩) (startConverter oneVisual)
        [.query (.selected (some 0)), .createProcess false]) = true := by decide +kernel
  obtain ⟨s, hs, hruns⟩ := exists_of_returns hruns
  obtain ⟨hpc, hruns⟩ := Bool.and_eq_true_iff.mp hruns
  obtain ⟨t, ht, hmarked⟩ := exists_of_returns hruns
  intro law
  have hlast := trail_snoc hs (ConverterAction.update ⟨true, true, true, true, true⟩)
  have hkept := (law.kept (s, .update ⟨true, true, true, true, true⟩)
    (hlast ▸ List.mem_append_right _ (List.mem_singleton_self _))
    t _ rfl ht ⟨0, "1".toList⟩ [] .notStarted (of_decide_eq_true hpc) trivial).1
  rw [of_decide_eq_true hmarked] at hkept
  cases hkept

end PlanetariumFD
