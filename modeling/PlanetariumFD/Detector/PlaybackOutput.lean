import PlanetariumFD.Detector.PlaybackWalk
import PlanetariumFD.Foundation.Refinement

/-!
# What playback writes

`processThreads2` has emptied every sequence by the time playback looks for a rectangle.
So the cropped video is never opened, beside any steps of the pruner and the save jobs,
and what goes into the full video are consecutive frames up to the newest. Playback takes
no lock, so here the pruner releases an entry's image in one step and erases the entry in
the next, and playback may read in between.
-/

namespace PlanetariumFD

open Outcome Transition Refinement

/-! ## Emptied sequences -/

/-- No entry has rectangles left, but for that of a frame that has yet to be matched. -/
def Emptied {F : Type} (s : System F) : Prop :=
  ∀ a e, s.sh.gHistory.get? a = some e → (∀ now, s.main ≠ .pushed a now) → e.pFacesSeq = []

section
variable {F : Type} [FloatOps F] {cfg : Config F} {s t : System F} {a : Action}

omit [FloatOps F] in
theorem Emptied.congr (h : Emptied s) (hist : t.sh.gHistory = s.sh.gHistory)
    (main : ∀ a now, s.main = .pushed a now → t.main = .pushed a now) : Emptied t := by
  intro a e hget hpushed
  rw [hist] at hget
  exact h a e hget fun now hs => hpushed now (main a now hs)

theorem Emptied.after (h : Emptied s) (e : StepEffect cfg s a t) : Emptied t := by
  cases e with
  | frame pc lt =>
    intro b x hget hpushed
    dsimp only at hget
    rw [recorded_gHistory, NodeList.get?_eq_some_iff, NodeList.mem_pushBack_nodes] at hget
    obtain hold | hnew := hget
    · exact h b x (NodeList.get?_eq_some_iff.mpr hold) fun now hs => by cases pc.symm.trans hs
    · -- the new entry is the one to be matched
      cases hnew
      exact absurd rfl (hpushed _)
  | @process cur now m pc eff =>
    intro b x hget _
    dsimp only at hget
    rw [eff.others] at hget
    by_cases hb : b = cur
    · subst hb
      rw [NodeList.modify, NodeList.get?_alter] at hget
      obtain ⟨y, -, rfl⟩ := Option.map_eq_some_iff.mp hget
      rw [if_pos rfl]
    · rw [NodeList.get?_modify_of_ne _ hb] at hget
      refine h b x hget fun now' hs => hb ?_
      cases pc.symm.trans hs
      rfl
  | keep pc get under => exact h.congr rfl fun b now hs => by cases pc.symm.trans hs
  | delete pc get past get' => exact h.congr rfl fun b now hs => by cases pc.symm.trans hs
  | seed pc => exact h.congr rfl fun b now hs => by cases pc.symm.trans hs
  | finish pc prune => exact h.congr rfl fun b now hs => by cases pc.symm.trans hs
  | erase pc get below long =>
    intro b x hget hpushed
    have hmem := mem_eraseEntry_nodes (NodeList.get?_eq_some_iff.mp hget)
    exact h b x (NodeList.get?_eq_some_iff.mpr hmem) hpushed
  | _ => exact h.congr rfl fun b now hs => hs

/-- The others leave the main thread where it stands. -/
theorem StepEffect.main_eq (e : StepEffect cfg s a t) (hframe : a.isFrame = false)
    (hmain : a ≠ .main) : t.main = s.main := by
  cases e with
  | frame pc lt => cases hframe
  | process => exact absurd rfl hmain
  | keep => exact absurd rfl hmain
  | delete => exact absurd rfl hmain
  | seed => exact absurd rfl hmain
  | finish => exact absurd rfl hmain
  | _ => rfl

end

/-! ## The videos -/

/-- The frames from `first + 1` to `upTo` are in the full video, and there is no other. -/
structure Played (first upTo : Nat) (p : Playback) : Prop where
  unopened : p.croppedVidSize = none
  uncropped : p.cropped = []
  le : first ≤ upTo
  played : p.played = (List.range' (first + 1) (upTo - first)).map fun n : Nat => (n : Int)

theorem played_start (first : Nat) : Played first first .start where
  unopened := rfl
  uncropped := rfl
  le := le_refl first
  played := by rw [Nat.sub_self]; rfl

theorem Played.next {first itr : Nat} {p : Playback} (h : Played first itr p) :
    Played first (itr + 1) { p with played := p.played ++ [(itr : Int) + 1] } where
  unopened := h.unopened
  uncropped := h.uncropped
  le := Nat.le_succ_of_le h.le
  played := by
    have hle := h.le
    have hlen : itr + 1 - first = (itr - first) + 1 := by omega
    have hlast : first + 1 + 1 * (itr - first) = itr + 1 := by omega
    rw [hlen, List.range'_concat, List.map_append, ← h.played, hlast]
    rfl

/-- Where playback may stand when the history ends at node `hi`. -/
def PlaybackPC.Plays (hi : Nat) : PlaybackPC → Prop
  | .scanning _ scan => scan = .start
  | .scanned _ scan => scan = .start
  | .playing none scan p => scan = .start ∧ ∃ first, Played first hi p ∧ (0 < hi → first < hi)
  | .playing (some itr) scan p => scan = .start ∧ ∃ first, Played first itr p
  | .sized itr scan p => scan = .start ∧ ∃ first, Played first itr p
  | .played itr scan p => scan = .start ∧ ∃ first, Played first (itr + 1) p ∧ first ≤ itr
  | .ended false p => ∃ first, Played first hi p ∧ (0 < hi → first < hi)
  | .ended true p => ∃ first upTo, Played first upTo p

section
variable {F : Type} {s : System F} {lo : Nat}

/-- A turn on a history without rectangles writes the next frame and crops nothing. -/
theorem PlaybackPC.Plays.turn {pc pc' : PlaybackPC} {isEsc : Bool} (hshape : HistoryShape s lo)
    (hempty : Emptied s) (hidle : s.main = .idle)
    (h : playbackTurn s.sh.gHistory isEsc pc = .ok pc')
    (hp : pc.Plays s.sh.gHistory.fresh) : pc'.Plays s.sh.gHistory.fresh := by
  have hnone : ∀ {a e}, s.sh.gHistory.get? a = some e → e.pFacesSeq = [] :=
    fun hget => hempty _ _ hget fun now hs => by cases hidle.symm.trans hs
  cases playbackTurn_cases h with
  | @begin scan =>
    obtain rfl : scan = .start := hp
    by_cases hlt : lo < s.sh.gHistory.fresh
    · rw [hshape.spans.front?_eq hlt]
      exact ⟨rfl, lo, played_start lo⟩
    · have hend : lo = s.sh.gHistory.fresh := le_antisymm hshape.spans.1 (not_lt.mp hlt)
      rw [hshape.spans.front?_eq_none (not_lt.mp hlt)]
      refine ⟨rfl, _, played_start _, fun hpos => ?_⟩
      have := hshape.lo_lt (by rw [hshape.counter]; omega)
      rw [hshape.counter] at this
      omega
  | scan get =>
    obtain rfl : _ = ConsensusScan.start := hp
    show scanEntry .start _ = .start
    rw [scanEntry, hnone get]
    rfl
  | scanNext get => exact hp
  | finish => exact hp.2
  | size get => exact hp
  | @play itr scan p p' e get played =>
    obtain ⟨rfl, first, hfirst⟩ := hp
    -- the entry has its image, and nothing in its sequence
    obtain ⟨-, -, hid, himage⟩ := hshape.of_get? get
    obtain ⟨img, himg⟩ := Option.ne_none_iff_exists'.mp himage
    have hentry : playEntry .start p e = .ok { p with played := p.played ++ [(itr : Int) + 1] } := by
      simp only [playEntry, himg, hnone get, List.length_nil, lt_irrefl, if_false, hid]
    simp only [playbackTurn, get, hentry, orHalt_ok, ok_bind] at h
    rw [← Except.ok.inj h]
    split
    · exact ⟨first, itr + 1, hfirst.next⟩
    · exact ⟨rfl, first, hfirst.next, hfirst.le⟩
  | @next itr scan p e get =>
    obtain ⟨rfl, first, hfirst, hle⟩ := hp
    obtain ⟨hlo, hhi, -, -⟩ := hshape.of_get? get
    by_cases hlast : itr + 1 < s.sh.gHistory.fresh
    · rw [hshape.spans.next?_eq (by omega) hlast]
      exact ⟨rfl, first, hfirst⟩
    · have hend : itr + 1 = s.sh.gHistory.fresh := by omega
      rw [NodeList.next?_eq_none hend.ge]
      exact ⟨rfl, first, hend ▸ hfirst, fun _ => by omega⟩

end

/-! ## The image is released first -/

/-- Playback, and the entry whose image has been released and which is still in the list.
Jobs read images under `gHistoryCS`, which the pruner holds between the release and the
erase: a turn that reads one there stands for the same turn before the release. -/
structure Releasing (F : Type) where
  playing : Playing F
  released : Option Nat

/-- `deallocHistoryEntry` -/
def deallocHistoryEntry (h : FDHistoryEntry) : FDHistoryEntry := { h with pFrame := none }

/-- The list as playback finds it. -/
def Releasing.gHistory {F : Type} (s : Releasing F) : NodeList FDHistoryEntry :=
  match s.released with
  | none => s.playing.sys.sh.gHistory
  | some itr => s.playing.sys.sh.gHistory.modify itr deallocHistoryEntry

section
variable {F : Type} [FloatOps F]

end

section
variable {F : Type} [FloatOps F] {cfg : Config F} {now : Int} {s : System F} {t u : Playing F}
  {a : PlaybackAction} {as : List PlaybackAction} {before : List Action} {n : Nat}

/-- The main thread is in playback, and where it may stand there. -/
structure InPlayback (n : Nat) (t : Playing F) : Prop where
  idle : t.sys.main = .idle
  emptied : Emptied t.sys
  shape : ∃ lo, HistoryShape t.sys lo
  fresh : t.sys.sh.gHistory.fresh = n
  plays : t.pc.Plays n

theorem InPlayback.after (h : InPlayback n t) (hst : playbackStep cfg t a = .ok u) :
    InPlayback n u := by
  obtain ⟨lo, hshape⟩ := h.shape
  have beside : ∀ {b : Action}, b.isFrame = false → b ≠ .main → StepEffect cfg t.sys b u.sys →
      u.pc = t.pc → InPlayback n u := by
    intro b hb hmain e hpc
    refine ⟨(e.main_eq hb hmain).trans h.idle, h.emptied.after e, ?_,
      (e.fresh_eq hb).trans h.fresh, hpc ▸ h.plays⟩
    obtain hu | ⟨hu, -⟩ := hshape.after e
    · exact ⟨lo, hu⟩
    · exact ⟨lo + 1, hu⟩
  cases a with
  | playback isEsc =>
    obtain ⟨pc, hpc, hst⟩ := bind_eq_ok.mp hst
    cases hst
    have hplays := h.plays
    rw [← h.fresh] at hplays
    exact ⟨h.idle, h.emptied, ⟨lo, hshape⟩, h.fresh,
      h.fresh ▸ hplays.turn hshape h.emptied h.idle hpc⟩
  | pruner =>
    obtain ⟨sys, hsys, hst⟩ := bind_eq_ok.mp hst
    cases hst
    exact beside rfl (fun h => by cases h) (step_cases hsys) rfl
  | job k isOk =>
    obtain ⟨sys, hsys, hst⟩ := bind_eq_ok.mp hst
    cases hst
    exact beside rfl (fun h => by cases h) (step_cases hsys) rfl

end

/-- What has been written so far, once the second loop has begun. -/
def PlaybackPC.written : PlaybackPC → Option Playback
  | .scanning _ _ => none
  | .scanned _ _ => none
  | .playing _ _ p => some p
  | .sized _ _ p => some p
  | .played _ _ p => some p
  | .ended _ p => some p

theorem PlaybackPC.Plays.written {n : Nat} {pc : PlaybackPC} {p : Playback} (h : pc.Plays n)
    (hp : pc.written = some p) : ∃ first upTo, Played first upTo p := by
  cases pc with
  | scanning itr scan => cases hp
  | scanned itr scan => cases hp
  | playing itr scan p =>
    cases hp
    cases itr with
    | none =>
      obtain ⟨-, first, hfirst, -⟩ := h
      exact ⟨first, n, hfirst⟩
    | some itr =>
      obtain ⟨-, first, hfirst⟩ := h
      exact ⟨first, itr, hfirst⟩
  | sized itr scan p =>
    cases hp
    obtain ⟨-, first, hfirst⟩ := h
    exact ⟨first, itr, hfirst⟩
  | played itr scan p =>
    cases hp
    obtain ⟨-, first, hfirst, -⟩ := h
    exact ⟨first, itr + 1, hfirst⟩
  | ended isEsc p =>
    cases hp
    cases isEsc with
    | true => exact h
    | false =>
      obtain ⟨first, hfirst, -⟩ := h
      exact ⟨first, n, hfirst⟩

section
variable {F : Type} [FloatOps F] {cfg : Config F} {now : Int} {s : System F} {t u : Releasing F}
  {a : PlaybackAction} {as : List PlaybackAction} {before : List Action}

end

end PlanetariumFD
