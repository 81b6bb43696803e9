import PlanetariumFD.Foundation.Refinement
import PlanetariumFD.Detector.System

/-!
# The main thread in smaller steps

In the interleaved system the main thread takes `processThreads2` up to its next critical
section in one step. Here a step is one turn of a loop: a rectangle popped, a face
matched, a thread updated, a job's CPU thread created, a thread shown; the pruner and the
jobs may act between any two. `flush` completes what the main thread has begun.
-/

namespace PlanetariumFD

open Outcome Transition Flushing

/-- Where the main thread stands: where the larger steps end, or inside a loop. -/
inductive FinePC (F : Type)
  | coarse (pc : MainPC F)
  /-- part 0, with the faces so far -/
  | popping (cur : Nat) (frameId : Int) (inputFaces : List Face)
  /-- part 1: the faces ahead, and those it left in the list -/
  | matching (faces left : List Face) (ms : List (Matching F))
  /-- part 2: the iterators and elements of `matches` ahead, and all of `matches` -/
  | updating (itrs : List Nat) (ahead ms : List (Matching F)) (inputFaces : List Face)
  /-- in `deleteThread` after its critical section -/
  | creating (job : Job) (itrs : List Nat) (ms : List (Matching F)) (inputFaces : List Face)
  /-- the loop that refills `gFacesInCurrentFrame` -/
  | showing (itrs : List Nat)

structure FineSystem (F : Type) where
  sh : Shared F
  main : FinePC F
  pruner : PrunerPC

/-- The same state, between two larger steps. -/
def System.fine {F : Type} (s : System F) : FineSystem F := ⟨s.sh, .coarse s.main, s.pruner⟩

section
variable {F : Type} [FloatOps F]

/-- The turns of the loops. -/
def loopStep (cfg : Config F) (s : FineSystem F) : FinePC F → Except Fault (FineSystem F)
  | .coarse _ => .ok s
  | .popping cur frameId inputFaces =>
    match s.sh.gHistory.get? cur with
    | none => .error .danglingPointer
    | some entry =>
      match cvSeqPop entry.pFacesSeq with
      | none => .ok { s with main := .matching inputFaces [] (initMatches s.sh.gThreads) }
      | some (r, seq) => .ok { s with
        sh := { s.sh with gHistory := s.sh.gHistory.modify cur fun e => { e with pFacesSeq := seq } }
        main := .popping cur frameId (inputFaces ++ [{ r with frameId := frameId }]) }
  | .matching [] left ms => .ok { s with main := .updating s.sh.gThreads.addrs ms ms left }
  | .matching (face :: faces) left ms => do
    let r ← matchFace cfg s.sh.gThreads face ms
    .ok { s with main := .matching faces (if r.2 = none then left ++ [face] else left) r.1 }
  | .updating [] _ ms inputFaces =>
    .ok { s with main := .coarse (.deleting s.sh.gThreads.addrs ms inputFaces) }
  | .updating (_ :: _) [] _ _ => .error .indexOutOfRange
  | .updating (_ :: itrs) (m :: ahead) ms inputFaces =>
    match s.sh.gThreads.get? m.th with
    | none => .error .danglingPointer
    | some _ => .ok { s with
      sh := { s.sh with gThreads := s.sh.gThreads.modify m.th (updateCounters m) }
      main := .updating itrs ahead ms inputFaces }
  | .creating job itrs ms inputFaces => .ok { s with
      sh := { s.sh with jobs := s.sh.jobs ++ [job] }
      main := .coarse (.deleting itrs ms inputFaces) }
  | .showing [] => .ok { s with main := .coarse .idle }
  | .showing (itr :: itrs) =>
    match s.sh.gThreads.get? itr with
    | none => .error .danglingPointer
    | some th =>
      if isShown cfg th then do
        let f ← th.back
        .ok { s with
          sh := { s.sh with gFacesInCurrentFrame := s.sh.gFacesInCurrentFrame ++ [f] }
          main := .showing itrs }
      else .ok { s with main := .showing itrs }

/-- The steps that begin where a larger step does. -/
def enterStep (cfg : Config F) (s : FineSystem F) : MainPC F → Except Halt (FineSystem F)
  | .idle => .error .disabled
  | .pushed cur now => do
    let g ← orHalt (sampleFps cfg s.sh s.sh.processedFrameCounter now)
    match g.gHistory.get? cur with
    | none => .error (.fault .danglingPointer)
    | some _ => .ok { s with sh := g, main := .popping cur s.sh.processedFrameCounter [] }
  | .deleting [] _ inputFaces => .ok { s with
      sh := { s.sh with gThreads := seedThreads s.sh.gThreads inputFaces }
      main := .coarse .seeded }
  | .deleting (_ :: _) [] _ => .error (.fault .indexOutOfRange)
  | .deleting (itr :: itrs) (m :: ms) inputFaces =>
    match s.sh.gThreads.get? m.th with
    | none => .error (.fault .danglingPointer)
    | some th =>
      if exceedsLimit cfg th then
        match s.sh.gThreads.get? itr with
        | none => .error (.fault .assertThreadToDelete)
        | some th' => .ok { s with
          sh := { s.sh with
            gThreadsBeingSerialized := s.sh.gThreadsBeingSerialized.pushBack th'
            gThreads := s.sh.gThreads.erase itr }
          main := .creating ⟨s.sh.gThreadsBeingSerialized.fresh, th'.ident, .started⟩ itrs ms
            inputFaces }
      else .ok { s with main := .coarse (.deleting itrs ms inputFaces) }
  | .seeded => do
    let g ← orHalt (pruneThreads cfg s.sh)
    .ok { s with
      sh := { g with gFacesInCurrentFrame := [] }
      main := .showing g.gThreads.addrs }

def fineStep (cfg : Config F) (s : FineSystem F) : Action → Except Halt (FineSystem F)
  | .frame inp =>
    match s.main with
    | .coarse .idle => do
      let r ← orHalt (recordFrame s.sh inp)
      .ok { s with sh := r.1, main := .coarse (.pushed r.2 inp.now) }
    | _ => .error .disabled
  | .main =>
    match s.main with
    | .coarse pc => enterStep cfg s pc
    | pc => orHalt (loopStep cfg s pc)
  | .pruner => do
    let r ← orHalt (pruneHistory s.sh s.pruner)
    .ok { s with sh := r.1, pruner := r.2 }
  | .job k isOk =>
    match s.sh.jobs[k]? with
    | none => .error .disabled
    | some j =>
      if j.pc = .finished then .error .disabled
      else do
        let g ← orHalt (saveAndDeleteThread cfg s.sh k j isOk)
        .ok { s with sh := g }

/-! ## Flushing -/

/-- What the main thread still changes before the next larger step. -/
structure Completion (F : Type) where
  pFacesSeq : Nat → List CvRect → List CvRect
  gThreads : NodeList FDFaceThread
  gFacesInCurrentFrame : List Face
  jobs : List Job
  main : MainPC F

def Completion.entry (d : Completion F) (a : Nat) (e : FDHistoryEntry) : FDHistoryEntry :=
  { e with pFacesSeq := d.pFacesSeq a e.pFacesSeq }

def Completion.apply (d : Completion F) (g : Shared F) : Shared F := { g with
  gHistory := g.gHistory.alter d.entry
  gThreads := d.gThreads
  gFacesInCurrentFrame := d.gFacesInCurrentFrame
  jobs := g.jobs ++ d.jobs }

/-- The shown faces of the threads at the addresses. -/
def shownFrom (cfg : Config F) (gThreads : NodeList FDFaceThread) :
    List Nat → Except Fault (List Face)
  | [] => .ok []
  | itr :: itrs =>
    match gThreads.get? itr with
    | none => .error .danglingPointer
    | some th =>
      if isShown cfg th then do
        let f ← th.back
        let fs ← shownFrom cfg gThreads itrs
        .ok (f :: fs)
      else shownFrom cfg gThreads itrs

def completion (cfg : Config F) (g : Shared F) : FinePC F → Except Fault (Completion F)
  | .coarse pc => .ok ⟨fun _ seq => seq, g.gThreads, g.gFacesInCurrentFrame, [], pc⟩
  | .popping cur frameId inputFaces =>
    match g.gHistory.get? cur with
    | none => .error .danglingPointer
    | some entry => do
      let input := popFaces frameId entry.pFacesSeq.length entry.pFacesSeq inputFaces
      let r ← matchFaces cfg g.gThreads input.1 (initMatches g.gThreads)
      let l ← updateThreads g.gThreads.addrs r.1 g.gThreads
      .ok ⟨fun a seq => if a = cur then input.2 else seq, l, g.gFacesInCurrentFrame, [],
        .deleting l.addrs r.1 r.2⟩
  | .matching faces left ms => do
    let r ← matchFaces cfg g.gThreads faces ms
    let l ← updateThreads g.gThreads.addrs r.1 g.gThreads
    .ok ⟨fun _ seq => seq, l, g.gFacesInCurrentFrame, [], .deleting l.addrs r.1 (left ++ r.2)⟩
  | .updating itrs ahead ms inputFaces => do
    let l ← updateThreads itrs ahead g.gThreads
    .ok ⟨fun _ seq => seq, l, g.gFacesInCurrentFrame, [], .deleting l.addrs ms inputFaces⟩
  | .creating job itrs ms inputFaces =>
    .ok ⟨fun _ seq => seq, g.gThreads, g.gFacesInCurrentFrame, [job], .deleting itrs ms inputFaces⟩
  | .showing itrs => do
    let fs ← shownFrom cfg g.gThreads itrs
    .ok ⟨fun _ seq => seq, g.gThreads, g.gFacesInCurrentFrame ++ fs, [], .idle⟩

/-- Complete what the main thread has begun, with no other thread in between. -/
def flush (cfg : Config F) (s : FineSystem F) : Except Fault (System F) :=
  (completion cfg s.sh s.main).map fun d => ⟨d.apply s.sh, d.main, s.pruner⟩

/-- The turns left until the next larger step, at most. -/
def FineSystem.turnsLeft (s : FineSystem F) : Nat :=
  match s.main with
  | .coarse _ => 0
  | .popping cur _ inputFaces =>
    2 * ((s.sh.gHistory.get? cur).elim 0 fun e => e.pFacesSeq.length) + inputFaces.length +
      s.sh.gThreads.size + 3
  | .matching faces _ _ => faces.length + s.sh.gThreads.size + 2
  | .updating itrs _ _ _ => itrs.length + 1
  | .creating _ _ _ _ => 1
  | .showing itrs => itrs.length + 1

end

end PlanetariumFD
