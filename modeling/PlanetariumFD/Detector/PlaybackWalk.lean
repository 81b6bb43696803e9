import PlanetariumFD.Detector.Playback
import PlanetariumFD.Detector.PruningPass

/-!
# Playback beside the pruner

After the input loop the main thread walks over the history twice, without a
lock, while the pruner and the save jobs go on. The walk is safe exactly as long
as the pruner erases no entry that the second loop has yet to leave.
-/

namespace PlanetariumFD

open Outcome Transition

/-- Where playback stands: in the loop that looks for the consensus rectangle,
before it reads an entry or before it advances, or in the playback loop, before
it reads the size of an entry's image, before it copies and writes it, or before
it advances. -/
inductive PlaybackPC
  | scanning (itr : Option Nat) (scan : ConsensusScan)
  | scanned (itr : Nat) (scan : ConsensusScan)
  | playing (itr : Option Nat) (scan : ConsensusScan) (p : Playback)
  | sized (itr : Nat) (scan : ConsensusScan) (p : Playback)
  | played (itr : Nat) (scan : ConsensusScan) (p : Playback)
  | ended (isEsc : Bool) (p : Playback)

/-- The system once the input loop has ended. -/
structure Playing (F : Type) where
  sys : System F
  pc : PlaybackPC

/-- The main thread only plays back now; `isEsc` tells whether it reads the Esc key
in this step. -/
inductive PlaybackAction
  | playback (isEsc : Bool)
  | pruner
  | job (k : Nat) (isOk : Bool)
  deriving DecidableEq, Repr

/-- `++itr` -/
def advance (history : NodeList FDHistoryEntry) (itr : Nat) : Except Fault (Option Nat) :=
  match history.get? itr with
  | none => .error .danglingPointer
  | some _ => .ok (history.next? itr)

def playbackTurn (history : NodeList FDHistoryEntry) (isEsc : Bool) :
    PlaybackPC → Except Halt PlaybackPC
  | .scanning none scan => .ok (.playing history.front? scan .start)
  | .scanning (some itr) scan =>
    match history.get? itr with
    | none => .error (.fault .danglingPointer)
    | some e => .ok (.scanned itr (scanEntry scan e))
  | .scanned itr scan => do
    let next ← orHalt (advance history itr)
    .ok (.scanning next scan)
  | .playing none _ p => .ok (.ended false p)
  | .playing (some itr) scan p =>
    match history.get? itr with
    | none => .error (.fault .danglingPointer)
    | some e =>
      match e.pFrame with
      | none => .error (.fault .nullImage)
      | some _ => .ok (.sized itr scan p)
  | .sized itr scan p =>
    match history.get? itr with
    | none => .error (.fault .danglingPointer)
    | some e => do
      let p ← orHalt (playEntry scan p e)
      .ok (if isEsc then .ended true p else .played itr scan p)
  | .played itr scan p => do
    let next ← orHalt (advance history itr)
    .ok (.playing next scan p)
  | .ended _ _ => .error .disabled

section
variable {F : Type} [FloatOps F]

/-- One step of playback, of the pruner or of a save job. -/
def playbackStep (cfg : Config F) (s : Playing F) : PlaybackAction → Except Halt (Playing F)
  | .playback isEsc => do
    let pc ← playbackTurn s.sys.sh.gHistory isEsc s.pc
    .ok { s with pc := pc }
  | .pruner => do
    let sys ← step cfg s.sys .pruner
    .ok { s with sys := sys }
  | .job k isOk => do
    let sys ← step cfg s.sys (.job k isOk)
    .ok { s with sys := sys }

omit [FloatOps F] in
/-- The first loop has called `begin()`. -/
def startPlayback (s : System F) : Playing F := ⟨s, .scanning s.sh.gHistory.front? .start⟩

end

/-! ## The law -/

/-- The entry the loops read or advance from next. -/
def PlaybackPC.itr : PlaybackPC → Option Nat
  | .scanning itr _ => itr
  | .scanned itr _ => some itr
  | .playing itr _ _ => itr
  | .sized itr _ _ => some itr
  | .played itr _ _ => some itr
  | .ended _ _ => none

/-- The frames the second loop has written. -/
def PlaybackPC.frames : PlaybackPC → List Int
  | .scanning _ _ => []
  | .scanned _ _ => []
  | .playing _ _ p => p.played
  | .sized _ _ p => p.played
  | .played _ _ p => p.played
  | .ended _ p => p.played

/-- The second loop has no business with the node any more. -/
def PlaybackPC.IsPast (a : Nat) : PlaybackPC → Prop
  | .scanning _ _ => False
  | .scanned _ _ => False
  | .playing none _ _ => True
  | .playing (some itr) _ _ => a < itr
  | .sized itr _ _ => a < itr
  | .played itr _ _ => a < itr
  | .ended _ _ => True

section
variable {F : Type} [FloatOps F]

/-- The law: the iterator never points at an erased entry, and unless Esc ends it
the second loop plays every entry that was there when the first began. -/
structure WalkLaw (cfg : Config F) (s : System F) (as : List PlaybackAction) : Prop where
  itr : ∀ t, Visits (playbackStep cfg) (startPlayback s) as t → ∀ a, t.pc.itr = some a →
    a ∈ t.sys.sh.gHistory.addrs
  visited : ∀ t p, Visits (playbackStep cfg) (startPlayback s) as t → t.pc = .ended false p →
    ∀ e ∈ s.sh.gHistory.vals, e.frameId ∈ p.played

omit [FloatOps F] in
/-- If the pruner's step is an erase, the second loop has left the entry. -/
def SparesUnplayed (s : Playing F) (a : PlaybackAction) : Prop :=
  a = .pruner → ∀ itr m ls entry, s.sys.pruner = .erasing (some itr) m ls →
    s.sys.sh.gHistory.get? itr = some entry → entry.frameId < m → minListSize < ls →
    s.pc.IsPast itr

instance (a : Nat) : (pc : PlaybackPC) → Decidable (pc.IsPast a)
  | .scanning _ _ => inferInstanceAs (Decidable False)
  | .scanned _ _ => inferInstanceAs (Decidable False)
  | .playing none _ _ => inferInstanceAs (Decidable True)
  | .playing (some itr) _ _ => inferInstanceAs (Decidable (a < itr))
  | .sized itr _ _ => inferInstanceAs (Decidable (a < itr))
  | .played itr _ _ => inferInstanceAs (Decidable (a < itr))
  | .ended _ _ => inferInstanceAs (Decidable True)

omit [FloatOps F] in
theorem sparesUnplayed_iff {s : Playing F} {a : PlaybackAction} :
    SparesUnplayed s a ↔ (a = .pruner → ∀ itr ∈ nextErased s.sys, s.pc.IsPast itr) := by
  simp only [SparesUnplayed, mem_nextErased]
  constructor
  · rintro h ha itr ⟨m, ls, entry, hpc, hget, hbelow, hlong⟩
    exact h ha itr m ls entry hpc hget hbelow hlong
  · intro h ha itr m ls entry hpc hget hbelow hlong
    exact h ha itr ⟨m, ls, entry, hpc, hget, hbelow, hlong⟩

instance (s : Playing F) (a : PlaybackAction) : Decidable (SparesUnplayed s a) :=
  decidable_of_iff _ sparesUnplayed_iff.symm

end

/-! ## One step -/

/-- The turns, with what they read. -/
inductive TurnEffect (history : NodeList FDHistoryEntry) (isEsc : Bool) :
    PlaybackPC → PlaybackPC → Prop
  | begin {scan} :
    TurnEffect history isEsc (.scanning none scan) (.playing history.front? scan .start)
  | scan {itr scan e} (get : history.get? itr = some e) :
    TurnEffect history isEsc (.scanning (some itr) scan) (.scanned itr (scanEntry scan e))
  | scanNext {itr scan e} (get : history.get? itr = some e) :
    TurnEffect history isEsc (.scanned itr scan) (.scanning (history.next? itr) scan)
  | finish {scan p} : TurnEffect history isEsc (.playing none scan p) (.ended false p)
  | size {itr scan p e} (get : history.get? itr = some e) :
    TurnEffect history isEsc (.playing (some itr) scan p) (.sized itr scan p)
  | play {itr scan p p' e} (get : history.get? itr = some e)
    (played : p'.played = p.played ++ [e.frameId]) :
    TurnEffect history isEsc (.sized itr scan p)
      (if isEsc then .ended true p' else .played itr scan p')
  | next {itr scan p e} (get : history.get? itr = some e) :
    TurnEffect history isEsc (.played itr scan p) (.playing (history.next? itr) scan p)

theorem playEntry_played {scan : ConsensusScan} {p p' : Playback} {e : FDHistoryEntry}
    (h : playEntry scan p e = .ok p') : p'.played = p.played ++ [e.frameId] := by
  unfold playEntry at h
  split at h
  · cases h
  · split at h
    · split at h
      · cases h
        rfl
      · cases h
    · cases h
      rfl

theorem advance_ok {history : NodeList FDHistoryEntry} {itr : Nat} {next : Option Nat}
    (h : advance history itr = .ok next) :
    (∃ e, history.get? itr = some e) ∧ next = history.next? itr := by
  unfold advance at h
  split at h
  · cases h
  · next e he =>
    cases h
    exact ⟨⟨e, he⟩, rfl⟩

theorem playbackTurn_cases {history : NodeList FDHistoryEntry} {isEsc : Bool} {pc pc' : PlaybackPC}
    (h : playbackTurn history isEsc pc = .ok pc') : TurnEffect history isEsc pc pc' := by
  cases pc with
  | scanning itr scan =>
    cases itr with
    | none =>
      cases h
      exact .begin
    | some itr =>
      simp only [playbackTurn] at h
      split at h
      · cases h
      · next e he =>
        cases h
        exact .scan he
  | scanned itr scan =>
    obtain ⟨next, hnext, h⟩ := bind_eq_ok.mp h
    cases h
    obtain ⟨⟨e, he⟩, rfl⟩ := advance_ok (orHalt_eq_ok.mp hnext)
    exact .scanNext he
  | playing itr scan p =>
    cases itr with
    | none =>
      cases h
      exact .finish
    | some itr =>
      simp only [playbackTurn] at h
      split at h
      · cases h
      · next e he =>
        split at h
        · cases h
        · cases h
          exact .size he
  | sized itr scan p =>
    simp only [playbackTurn] at h
    split at h
    · cases h
    · next e he =>
      obtain ⟨p', hp', h⟩ := bind_eq_ok.mp h
      cases h
      exact .play he (playEntry_played (orHalt_eq_ok.mp hp'))
  | played itr scan p =>
    obtain ⟨next, hnext, h⟩ := bind_eq_ok.mp h
    cases h
    obtain ⟨⟨e, he⟩, rfl⟩ := advance_ok (orHalt_eq_ok.mp hnext)
    exact .next he
  | ended isEsc p => cases h

section
variable {F : Type} [FloatOps F] {cfg : Config F} {s t : Playing F} {a : PlaybackAction}

/-- A step is a turn of playback, or a step of the others beside it. -/
theorem playbackStep_cases (h : playbackStep cfg s a = .ok t) :
    (∃ isEsc, a = .playback isEsc ∧ t.sys = s.sys ∧
        TurnEffect s.sys.sh.gHistory isEsc s.pc t.pc) ∨
      (t.pc = s.pc ∧ ((a = .pruner ∧ StepEffect cfg s.sys .pruner t.sys) ∨
        ∃ k isOk, a = .job k isOk ∧ StepEffect cfg s.sys (.job k isOk) t.sys)) := by
  cases a with
  | playback isEsc =>
    obtain ⟨pc, hpc, h⟩ := bind_eq_ok.mp h
    cases h
    exact .inl ⟨isEsc, rfl, rfl, playbackTurn_cases hpc⟩
  | pruner =>
    obtain ⟨sys, hsys, h⟩ := bind_eq_ok.mp h
    cases h
    exact .inr ⟨rfl, .inl ⟨rfl, step_cases hsys⟩⟩
  | job k isOk =>
    obtain ⟨sys, hsys, h⟩ := bind_eq_ok.mp h
    cases h
    exact .inr ⟨rfl, .inr ⟨k, isOk, rfl, step_cases hsys⟩⟩

end

/-! ## Runs that spare what is unplayed -/

/-- The entries of the nodes from `lo` up to `hi` have been played. -/
def PlayedUpTo (lo hi : Nat) (p : Playback) : Prop :=
  ∀ a, lo ≤ a → a < hi → (a : Int) + 1 ∈ p.played

/-- Where playback may stand when the history began at node `start` and now holds
the nodes from `lo` up to `hi`. -/
def PlaybackPC.Covers (start lo hi : Nat) : PlaybackPC → Prop
  | .scanning itr _ => lo = start ∧ ∀ a, itr = some a → lo ≤ a ∧ a < hi
  | .scanned itr _ => lo = start ∧ lo ≤ itr ∧ itr < hi
  | .playing none _ p => PlayedUpTo start hi p
  | .playing (some itr) _ p => lo ≤ itr ∧ itr < hi ∧ PlayedUpTo start itr p
  | .sized itr _ p => lo ≤ itr ∧ itr < hi ∧ PlayedUpTo start itr p
  | .played itr _ p => lo ≤ itr ∧ itr < hi ∧ PlayedUpTo start (itr + 1) p
  | .ended false p => PlayedUpTo start hi p
  | .ended true _ => True

namespace PlaybackPC.Covers

variable {history : NodeList FDHistoryEntry} {isEsc : Bool} {pc pc' : PlaybackPC}
  {start lo hi : Nat}

theorem mem_itr (h : pc.Covers start lo hi) {a : Nat} (ha : pc.itr = some a) :
    lo ≤ a ∧ a < hi := by
  cases pc with
  | scanning itr scan => exact h.2 a ha
  | scanned itr scan =>
    cases ha
    exact h.2
  | playing itr scan p =>
    obtain rfl : itr = some a := ha
    exact ⟨h.1, h.2.1⟩
  | sized itr scan p =>
    cases ha
    exact ⟨h.1, h.2.1⟩
  | played itr scan p =>
    cases ha
    exact ⟨h.1, h.2.1⟩
  | ended isEsc p => cases ha

/-- After an entry the next one is in the list, or there is none and all are done. -/
theorem playing_next (hs : history.SpansFrom lo) {a : Nat} (hlo : lo ≤ a)
    (hhi : a < history.fresh) {scan : ConsensusScan} {p : Playback}
    (hp : PlayedUpTo start (a + 1) p) :
    (PlaybackPC.playing (history.next? a) scan p).Covers start lo history.fresh := by
  by_cases hlast : a + 1 < history.fresh
  · rw [hs.next?_eq (by omega) hlast]
    exact ⟨by omega, hlast, hp⟩
  · have hend : a + 1 = history.fresh := by omega
    rw [NodeList.next?_eq_none hend.ge]
    show PlayedUpTo start history.fresh p
    rw [← hend]
    exact hp

theorem turn (e : TurnEffect history isEsc pc pc') (hs : history.SpansFrom lo)
    (hid : ∀ a e, history.get? a = some e → e.frameId = a + 1)
    (h : pc.Covers start lo history.fresh) : pc'.Covers start lo history.fresh := by
  cases e with
  | begin =>
    obtain ⟨rfl, -⟩ := h
    have hnone : PlayedUpTo lo lo .start := fun a h1 h2 => absurd h2 (by omega)
    by_cases hlt : lo < history.fresh
    · rw [hs.front?_eq hlt]
      exact ⟨le_refl lo, hlt, hnone⟩
    · rw [hs.front?_eq_none (by omega)]
      exact fun a h1 h2 => absurd h2 (by omega)
  | scan get => exact ⟨h.1, h.2 _ rfl⟩
  | scanNext get =>
    refine ⟨h.1, fun a ha => ?_⟩
    obtain ⟨-, hlo, hhi⟩ := h
    have hmem := List.mem_of_find?_eq_some ha
    have hafter := List.find?_some ha
    rw [decide_eq_true_eq] at hafter
    exact ⟨by omega, NodeList.addr_lt_fresh hmem⟩
  | finish => exact h
  | size get => exact h
  | @play itr scan p p' e get played =>
    obtain ⟨hlo, hhi, hp⟩ := h
    split
    · trivial
    · refine ⟨hlo, hhi, fun a h1 h2 => ?_⟩
      rw [played, List.mem_append, List.mem_singleton, hid itr e get]
      by_cases ha : a < itr
      · exact .inl (hp a h1 ha)
      · exact .inr (by omega)
  | next get =>
    obtain ⟨hlo, hhi, hp⟩ := h
    exact playing_next hs hlo hhi hp

/-- An erase at the front leaves an entry that the second loop is past. -/
theorem erased (h : pc.Covers start lo hi) (hpast : pc.IsPast lo) : pc.Covers start (lo + 1) hi := by
  cases pc with
  | scanning itr scan => exact hpast.elim
  | scanned itr scan => exact hpast.elim
  | playing itr scan p =>
    cases itr with
    | none => exact h
    | some itr => exact ⟨hpast, h.2⟩
  | sized itr scan p => exact ⟨hpast, h.2⟩
  | played itr scan p => exact ⟨hpast, h.2⟩
  | ended isEsc p => cases isEsc <;> exact h

end PlaybackPC.Covers

/-- Playback and the history fit together; `hi` is fixed, since no frame is pushed. -/
structure Walk {F : Type} (start hi lo : Nat) (t : Playing F) : Prop where
  shape : HistoryShape t.sys lo
  fresh : t.sys.sh.gHistory.fresh = hi
  covers : t.pc.Covers start lo hi

section
variable {F : Type} [FloatOps F] {cfg : Config F} {now : Int} {s : System F} {t u : Playing F}
  {a : PlaybackAction} {as : List PlaybackAction} {before : List Action} {first hi lo : Nat}

omit [FloatOps F] in
theorem HistoryShape.walk (h : HistoryShape s lo) :
    Walk lo s.sh.gHistory.fresh lo (startPlayback s) where
  shape := h
  fresh := rfl
  covers := by
    refine ⟨rfl, fun a ha => h.spans.mem_addrs_iff.mp (List.mem_of_head? ha)⟩

/-- One step of the pruner or of a job: the history keeps its start, or an erase
moves it on. -/
theorem Walk.beside (w : Walk first hi lo t) {b : Action} (hb : b.isFrame = false)
    (e : StepEffect cfg t.sys b u.sys) (hpc : u.pc = t.pc)
    (hspares : b = .pruner → SparesUnplayed t .pruner) : ∃ lo', Walk first hi lo' u := by
  have hfresh : u.sys.sh.gHistory.fresh = hi := (e.fresh_eq hb).trans w.fresh
  obtain hshape | ⟨hshape, hpruner, m, ls, herasing, hbelow, hlong, -⟩ := w.shape.after e
  · exact ⟨lo, hshape, hfresh, hpc ▸ w.covers⟩
  · -- the node erased is the front one, and playback is past it
    have hlt : lo < t.sys.sh.gHistory.fresh := by
      have := hshape.spans.1
      have := w.fresh
      omega
    obtain ⟨entry, hget, hid, -⟩ := w.shape.get? (le_refl lo) hlt
    have hpast := hspares hpruner rfl lo m ls entry herasing hget (by omega) hlong
    exact ⟨lo + 1, hshape, hfresh, hpc ▸ w.covers.erased hpast⟩

theorem Walk.after (w : Walk first hi lo t) (h : playbackStep cfg t a = .ok u)
    (hspares : SparesUnplayed t a) : ∃ lo', Walk first hi lo' u := by
  obtain ⟨isEsc, rfl, hsys, e⟩ | ⟨hpc, ⟨rfl, e⟩ | ⟨k, isOk, rfl, e⟩⟩ := playbackStep_cases h
  · refine ⟨lo, hsys ▸ w.shape, hsys ▸ w.fresh, ?_⟩
    have hcovers := w.covers
    rw [← w.fresh] at hcovers ⊢
    exact hcovers.turn e w.shape.spans fun a e he => (w.shape.of_get? he).2.2.1
  · exact w.beside rfl e hpc fun _ => hspares
  · exact w.beside rfl e hpc fun h => by cases h

/-- The condition is enough, in every run. -/
theorem walkLaw_of_spares (hrun : run (step cfg) (start cfg now) before = .ok s)
    (hspares : Throughout (playbackStep cfg) SparesUnplayed (startPlayback s) as) :
    WalkLaw cfg s as := by
  obtain ⟨-, first, hshape, -⟩ := historyShape_of_run hrun
  have hwalk : ∀ t, Visits (playbackStep cfg) (startPlayback s) as t →
      ∃ lo, Walk first s.sh.gHistory.fresh lo t := by
    rintro t ⟨bs, ⟨cs, rfl⟩, hbs⟩
    refine run_invariant_of_throughout (C := SparesUnplayed)
      (P := fun t => ∃ lo, Walk first s.sh.gHistory.fresh lo t) ?_ ⟨first, hshape.walk⟩ hbs
      ((throughout_append_iff hbs cs).mp hspares).1
    rintro t a u ⟨lo, w⟩ hspares hstep
    exact w.after hstep hspares
  refine ⟨fun t ht a ha => ?_, fun t p ht hpc e he => ?_⟩
  · obtain ⟨lo, w⟩ := hwalk t ht
    rw [w.shape.spans.mem_addrs_iff, w.fresh]
    exact w.covers.mem_itr ha
  · obtain ⟨lo, w⟩ := hwalk t ht
    obtain ⟨a, ha⟩ := NodeList.mem_vals_iff.mp he
    obtain ⟨hlo, hhi, hid, -⟩ := hshape.of_get? (NodeList.get?_eq_some_iff.mpr ha)
    have hcovers := w.covers
    rw [hpc] at hcovers
    rw [hid]
    exact hcovers a hlo hhi

/-! ## Runs that do not -/

/-- The entry of node `x` is gone and has not been played. -/
structure Missed {F : Type} (x lo : Nat) (t : Playing F) : Prop where
  shape : HistoryShape t.sys lo
  gone : x < lo
  unplayed : (x : Int) + 1 ∉ t.pc.frames

omit [FloatOps F] in
/-- A turn plays only what is in the history. -/
theorem Missed.turn {x : Nat} (m : Missed x lo t) {isEsc : Bool} {pc : PlaybackPC}
    (e : TurnEffect t.sys.sh.gHistory isEsc t.pc pc) : (x : Int) + 1 ∉ pc.frames := by
  have hun := m.unplayed
  generalize t.pc = old at e hun
  cases e with
  | begin => exact List.not_mem_nil
  | scan get => exact hun
  | scanNext get => exact hun
  | finish => exact hun
  | size get => exact hun
  | @play itr scan p p' entry get played =>
    obtain ⟨hlo, -, hid, -⟩ := m.shape.of_get? get
    have hx := m.gone
    have hframes : (x : Int) + 1 ∉ p'.played := by
      rw [played, List.mem_append, List.mem_singleton, hid, not_or]
      exact ⟨hun, by omega⟩
    cases isEsc <;> exact hframes
  | next get => exact hun

theorem Missed.after {x : Nat} (m : Missed x lo t) (h : playbackStep cfg t a = .ok u) :
    ∃ lo', Missed x lo' u := by
  have beside : ∀ {b : Action}, StepEffect cfg t.sys b u.sys → u.pc = t.pc →
      ∃ lo', Missed x lo' u := by
    intro b e hpc
    have hun := hpc ▸ m.unplayed
    obtain hshape | ⟨hshape, -⟩ := m.shape.after e
    · exact ⟨lo, hshape, m.gone, hun⟩
    · exact ⟨lo + 1, hshape, Nat.lt_succ_of_lt m.gone, hun⟩
  obtain ⟨isEsc, rfl, hsys, e⟩ | ⟨hpc, ⟨rfl, e⟩ | ⟨k, isOk, rfl, e⟩⟩ := playbackStep_cases h
  · exact ⟨lo, hsys ▸ m.shape, m.gone, m.turn e⟩
  · exact beside e hpc
  · exact beside e hpc

/-- The history keeps its shape beside playback, and its end. -/
theorem historyShape_of_playback (hshape : HistoryShape s first)
    (h : run (playbackStep cfg) (startPlayback s) as = .ok t) :
    ∃ lo, HistoryShape t.sys lo ∧ first ≤ lo ∧
      t.sys.sh.gHistory.fresh = s.sh.gHistory.fresh := by
  refine run_invariant (P := fun t => ∃ lo, HistoryShape t.sys lo ∧ first ≤ lo ∧
    t.sys.sh.gHistory.fresh = s.sh.gHistory.fresh) ?_ ⟨first, hshape, le_refl _, rfl⟩ h
  rintro t a u ⟨lo, ht, hle, hfresh⟩ hstep
  have beside : ∀ {b : Action}, b.isFrame = false → StepEffect cfg t.sys b u.sys →
      ∃ lo, HistoryShape u.sys lo ∧ first ≤ lo ∧
        u.sys.sh.gHistory.fresh = s.sh.gHistory.fresh := by
    intro b hb e
    have hfresh' := (e.fresh_eq hb).trans hfresh
    obtain hu | ⟨hu, -⟩ := ht.after e
    · exact ⟨lo, hu, hle, hfresh'⟩
    · exact ⟨lo + 1, hu, by omega, hfresh'⟩
  obtain ⟨isEsc, rfl, hsys, -⟩ | ⟨-, ⟨rfl, e⟩ | ⟨k, isOk, rfl, e⟩⟩ := playbackStep_cases hstep
  · exact ⟨lo, hsys ▸ ht, hle, hsys ▸ hfresh⟩
  · exact beside rfl e
  · exact beside rfl e

/-- A run that obeys the law to its end misses no entry there was at its start. -/
theorem not_missed_of_walkLaw {v : Playing F} {p : Playback} {k lo : Nat} {cs : List PlaybackAction}
    (hshape : HistoryShape s first) (law : WalkLaw cfg s as)
    (hend : run (playbackStep cfg) (startPlayback s) as = .ok t) (hpc : t.pc = .ended false p)
    (hrest : run (playbackStep cfg) v cs = .ok t) (hle : first ≤ k)
    (hlt : k < s.sh.gHistory.fresh) (missed : Missed k lo v) : False := by
  have hkeeps : ∀ t a t', (∃ lo', Missed k lo' t) → playbackStep cfg t a = .ok t' →
      ∃ lo', Missed k lo' t' := by
    rintro t a t' ⟨lo', m⟩ h
    exact m.after h
  obtain ⟨lo', m⟩ := run_invariant hkeeps ⟨lo, missed⟩ hrest
  obtain ⟨e, he, heid, -⟩ := hshape.get? hle hlt
  have hplayed := law.visited t p ⟨as, List.prefix_refl _, hend⟩ hpc e
    (NodeList.mem_vals_iff.mpr ⟨k, NodeList.get?_eq_some_iff.mp he⟩)
  have hunplayed := m.unplayed
  rw [hpc] at hunplayed
  exact hunplayed (heid ▸ hplayed)

/-- In a run that ends without Esc the condition is necessary. -/
theorem spares_of_walkLaw (hrun : run (step cfg) (start cfg now) before = .ok s) {p : Playback}
    (hend : run (playbackStep cfg) (startPlayback s) as = .ok t) (hpc : t.pc = .ended false p)
    (law : WalkLaw cfg s as) :
    Throughout (playbackStep cfg) SparesUnplayed (startPlayback s) as := by
  obtain ⟨-, first, hshape, -⟩ := historyShape_of_run hrun
  intro q hq
  obtain ⟨bs, cs, has, hbs⟩ := mem_trail hq
  obtain ⟨u, b⟩ := q
  intro hb itr m ls entry herasing hget hbelow hlong
  obtain rfl : b = .pruner := hb
  obtain ⟨lo, hu, hle, hfresh⟩ := historyShape_of_playback hshape hbs
  -- the step erases the front node `lo`, and the run goes on from `v`
  obtain rfl : itr = lo := by
    have hfits := hu.pruner
    rw [herasing] at hfits
    exact Option.some.inj hfits.2.2
  obtain ⟨-, hlt, hid, -⟩ := hu.of_get? hget
  rw [has] at hend
  obtain ⟨v, hv, hrest⟩ := run_append_iff.mp (by rwa [List.append_cons] at hend :
    run (playbackStep cfg) (startPlayback s) (bs ++ [.pruner] ++ cs) = .ok t)
  have hvisit : Visits (playbackStep cfg) (startPlayback s) as v :=
    ⟨bs ++ [.pruner], ⟨cs, by rw [has, List.append_assoc]; rfl⟩, hv⟩
  obtain ⟨u', hu', hstep⟩ := run_snoc_iff.mp hv
  obtain rfl : u = u' := Except.ok.inj (hbs.symm.trans hu')
  obtain ⟨sys, hsys, he⟩ := bind_eq_ok.mp hstep
  cases he
  obtain ⟨-, -, hv', -⟩ | ⟨hguard, -⟩ := (hu.erasing_step herasing).2 sys hsys
  swap
  · exact absurd ⟨hid ▸ hbelow, hlong⟩ hguard
  -- an entry that the second loop has not reached would never be played
  have hmissed : (itr : Int) + 1 ∉ u.pc.frames → False := fun hun =>
    not_missed_of_walkLaw hshape law (has ▸ hend) hpc hrest hle (hfresh ▸ hlt)
      ⟨hv', Nat.lt_succ_self itr, hun⟩
  -- an iterator at or before the erased node would point at an erased entry
  have hdangling : ∀ c, u.pc.itr = some c → itr < c := by
    intro c hc
    have hmem := law.itr _ hvisit c hc
    exact (hv'.spans.mem_addrs_iff.mp hmem).1
  cases hupc : u.pc with
  | scanning i scan => exact hmissed (by rw [hupc]; exact List.not_mem_nil)
  | scanned i scan => exact hmissed (by rw [hupc]; exact List.not_mem_nil)
  | playing i scan p =>
    cases i with
    | none => trivial
    | some i => exact hdangling i (by rw [hupc]; rfl)
  | sized i scan p => exact hdangling i (by rw [hupc]; rfl)
  | played i scan p => exact hdangling i (by rw [hupc]; rfl)
  | ended isEsc p => trivial

/-- Playback beside the pruner and the save jobs, from any state the input loop can
end in: every run that spares what is unplayed obeys the law, and a run that ends
without Esc obeys it only then. -/
theorem walkLaw_spares (hrun : run (step cfg) (start cfg now) before = .ok s)
    (as : List PlaybackAction) :
    (Throughout (playbackStep cfg) SparesUnplayed (startPlayback s) as → WalkLaw cfg s as) ∧
      ∀ t p, run (playbackStep cfg) (startPlayback s) as = .ok t → t.pc = .ended false p →
        (WalkLaw cfg s as ↔
          Throughout (playbackStep cfg) SparesUnplayed (startPlayback s) as) :=
  ⟨walkLaw_of_spares hrun, fun _ _ hend hpc =>
    ⟨spares_of_walkLaw hrun hend hpc, walkLaw_of_spares hrun⟩⟩

/-! ## Short histories -/

/-- Beside playback a history can only shrink. -/
theorem short_of_playback (hshape : HistoryShape s first)
    (hshort : s.sh.gHistory.size ≤ minListSize)
    (h : run (playbackStep cfg) (startPlayback s) as = .ok t) :
    ∃ lo, HistoryShape t.sys lo ∧ t.sys.sh.gHistory.size ≤ minListSize := by
  obtain ⟨lo, ht, hle, hfresh⟩ := historyShape_of_playback hshape h
  refine ⟨lo, ht, ?_⟩
  rw [ht.size_eq, hfresh]
  rw [hshape.size_eq] at hshort
  omega

/-- The pruner leaves a history of at most `MIN_LIST_SIZE` entries alone, so
playback of it is safe. -/
theorem spares_of_short (hrun : run (step cfg) (start cfg now) before = .ok s)
    (hshort : s.sh.gHistory.size ≤ minListSize) :
    Throughout (playbackStep cfg) SparesUnplayed (startPlayback s) as := by
  obtain ⟨-, first, hshape, -⟩ := historyShape_of_run hrun
  rintro ⟨u, b⟩ hq - itr m ls entry herasing - - hlong
  obtain ⟨bs, cs, -, hbs⟩ := mem_trail hq
  obtain ⟨lo, hu, hsize⟩ := short_of_playback hshape hshort hbs
  -- `list_size` is not above the real size
  have hfits := hu.pruner
  rw [herasing] at hfits
  have := hfits.2.1
  omega

end

/-- The first loop passes over 21 entries and the second one leaves the first of them. Then
the pruner erases it, and playback goes on to the end. -/
def erasedBehind : List PlaybackAction :=
  List.replicate 46 (.playback false) ++
    (List.replicate 3 .pruner ++ List.replicate 61 (.playback false))

theorem walkLaw_spares_erasedBehind : ∃ s t,
    run (step (Config.declared : Config ℚ)) (start Config.declared 0)
      (List.replicate 21 quietFrame).flatten = .ok s ∧
    run (playbackStep (Config.declared : Config ℚ)) (startPlayback s) erasedBehind = .ok t ∧
    0 ∈ s.sh.gHistory.addrs ∧ 0 ∉ t.sys.sh.gHistory.addrs ∧
    WalkLaw (Config.declared : Config ℚ) s erasedBehind := by
  have hruns : returns (fun s => decide (0 ∈ s.sh.gHistory.addrs ∧
      Throughout (playbackStep (Config.declared : Config ℚ)) SparesUnplayed (startPlayback s)
        erasedBehind) && returns (fun t => decide (0 ∉ t.sys.sh.gHistory.addrs))
          (run (playbackStep (Config.declared : Config ℚ)) (startPlayback s) erasedBehind))
      (run (step (Config.declared : Config ℚ)) (start Config.declared 0)
        (List.replicate 21 quietFrame).flatten) = true := by
    decide +kernel
  obtain ⟨s, hs, hdec⟩ := exists_of_returns hruns
  obtain ⟨hspares, hend⟩ := (Bool.and_eq_true _ _).mp hdec
  obtain ⟨hthere, hspares⟩ := of_decide_eq_true hspares
  obtain ⟨t, ht, hgone⟩ := exists_of_returns hend
  exact ⟨s, t, hs, ht, hthere, of_decide_eq_true hgone, (walkLaw_spares hs _).1 hspares⟩

/-- The pruner erases the entry on which the first loop stands. -/
theorem playback_entry_erased : ∃ s,
    run (step (Config.declared : Config ℚ)) (start Config.declared 0)
      (List.replicate 21 quietFrame).flatten = .ok s ∧
    ¬ WalkLaw (Config.declared : Config ℚ) s [.pruner, .pruner, .pruner] := by
  have hruns : returns (fun s => returns (fun t => decide (t.pc.itr = some 0 ∧
      0 ∉ t.sys.sh.gHistory.addrs)) (run (playbackStep (Config.declared : Config ℚ))
        (startPlayback s) [.pruner, .pruner, .pruner]))
      (run (step (Config.declared : Config ℚ)) (start Config.declared 0)
        (List.replicate 21 quietFrame).flatten) = true := by
    decide +kernel
  obtain ⟨s, hs, hruns⟩ := exists_of_returns hruns
  obtain ⟨t, ht, hstate⟩ := exists_of_returns hruns
  obtain ⟨hitr, hgone⟩ := of_decide_eq_true hstate
  exact ⟨s, hs, fun law => hgone (law.itr t ⟨_, List.prefix_refl _, ht⟩ 0 hitr)⟩

end PlanetariumFD
