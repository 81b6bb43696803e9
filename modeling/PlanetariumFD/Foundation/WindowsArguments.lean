import Mathlib

/-!
# Command lines as Windows programs read them

The program's name ends at the first blank outside quotation marks. In the arguments
after it a quoted part keeps its blanks, two quotation marks in it are one, and
backslashes count only before a quotation mark: each pair is one, and a last odd one
makes the mark a character.
-/

namespace PlanetariumFD.WindowsArguments

def isBlank (c : Char) : Bool := c = ' ' ∨ c = '\t'

/-- Outside quotation marks, between them, or right after the mark that ended a quoted
part and would be the first of two. -/
inductive Mode
  | plain
  | quoted
  | closing
  deriving DecidableEq, Repr

/-- The argument being read, the backslashes read after it, and the mode. -/
structure State where
  arg : Option (List Char)
  slashes : Nat
  mode : Mode
  deriving DecidableEq, Repr

namespace State

def between : State := ⟨none, 0, .plain⟩

def text (s : State) : List Char := s.arg.getD []

/-- What ends here: the argument, if one has begun. -/
def finish (s : State) : List (List Char) :=
  s.arg.toList.map fun a => a ++ List.replicate s.slashes '\\'

/-- One character: what ends, and the state after it. -/
def step (s : State) (c : Char) : List (List Char) × State :=
  if c = '\\' then
    ([], ⟨some s.text, s.slashes + 1, if s.mode = .quoted then .quoted else .plain⟩)
  else if c = '"' then
    if s.mode = .closing then ([], ⟨some (s.text ++ ['"']), 0, .quoted⟩)
    else
      let t := s.text ++ List.replicate (s.slashes / 2) '\\'
      if s.slashes % 2 = 1 then ([], ⟨some (t ++ ['"']), 0, s.mode⟩)
      else ([], ⟨some t, 0, if s.mode = .quoted then .closing else .quoted⟩)
  else if s.mode ≠ .quoted ∧ isBlank c = true then (s.finish, between)
  else
    ([], ⟨some (s.text ++ List.replicate s.slashes '\\' ++ [c]), 0,
      if s.mode = .quoted then .quoted else .plain⟩)

end State

/-- The arguments in the rest of a command line. -/
def split : State → List Char → List (List Char)
  | s, [] => s.finish
  | s, c :: cs => (s.step c).1 ++ split (s.step c).2 cs

/-- The program's name, and what follows the blank after it. -/
def programName : Bool → List Char → List Char × List Char
  | _, [] => ([], [])
  | inQuotes, c :: cs =>
    if c = '"' then programName (!inQuotes) cs
    else if !inQuotes && isBlank c then ([], cs)
    else (c :: (programName inQuotes cs).1, (programName inQuotes cs).2)

def parse (line : List Char) : List (List Char) :=
  (programName false line).1 :: split .between (programName false line).2

example : parse "p \"a b\" c\\\\\"d\\\"e\" \"f\"\"g\" \\h".toList =
    ["p".toList, "a b".toList, "c\\d\"e".toList, "f\"g".toList, "\\h".toList] := by decide

/-! ## A quoted text without quotation marks -/

section
variable {s : State} {c : Char}

theorem step_ordinary (hslash : c ≠ '\\') (hquote : c ≠ '"')
    (hkeep : ¬ (s.mode ≠ .quoted ∧ isBlank c = true)) :
    s.step c = ([], ⟨some (s.text ++ List.replicate s.slashes '\\' ++ [c]), 0,
      if s.mode = .quoted then .quoted else .plain⟩) := by
  rw [State.step, if_neg hslash, if_neg hquote, if_neg hkeep]

theorem step_slash : s.step '\\' =
    ([], ⟨some s.text, s.slashes + 1, if s.mode = .quoted then .quoted else .plain⟩) := by
  rw [State.step, if_pos rfl]

/-- A quoted text without quotation marks that does not end in a backslash is read as
it is. -/
theorem split_quoted (a : List Char) (n : Nat) {t : List Char} (ht : '"' ∉ t) (hslash : c ≠ '\\')
    (hquote : c ≠ '"') (rest : List Char) :
    split ⟨some a, n, .quoted⟩ (t ++ c :: rest) =
      split ⟨some (a ++ List.replicate n '\\' ++ t ++ [c]), 0, .quoted⟩ rest := by
  have hkeep (d : Char) : ¬ (Mode.quoted ≠ .quoted ∧ isBlank d = true) := fun h => h.1 rfl
  induction t generalizing a n with
  | nil =>
    rw [List.nil_append, split, step_ordinary hslash hquote (hkeep c), List.append_nil]
    rfl
  | cons d t ih =>
    obtain ⟨hd, htail⟩ := not_or.mp (mt List.mem_cons.mpr ht)
    by_cases hds : d = '\\'
    · subst hds
      rw [List.cons_append, split, step_slash]
      show split ⟨some a, n + 1, .quoted⟩ (t ++ c :: rest) = _
      rw [ih _ _ htail, List.replicate_succ']
      simp only [List.append_assoc, List.cons_append, List.nil_append]
    · rw [List.cons_append, split, step_ordinary hds (Ne.symm hd) (hkeep d)]
      show split ⟨some (a ++ List.replicate n '\\' ++ [d]), 0, .quoted⟩ (t ++ c :: rest) = _
      rw [ih _ _ htail]
      simp only [List.replicate_zero, List.append_nil, List.append_assoc, List.cons_append,
        List.nil_append]

/-- A quoted argument that a blank follows, or the end of the line. -/
theorem split_closed (a rest : List Char) :
    split ⟨some a, 0, .quoted⟩ ('"' :: ' ' :: rest) = a :: split .between rest := by
  simp [split, State.step, State.text, State.finish, isBlank]

theorem split_closed_end (a : List Char) : split ⟨some a, 0, .quoted⟩ ['"'] = [a] := by
  simp [split, State.step, State.text, State.finish]

end

/-! ## What quotation marks cost -/

/-- The characters of the arguments, and one for each argument. -/
def size (args : List (List Char)) : Nat := (args.map fun a => a.length + 1).sum

@[simp] theorem size_nil : size [] = 0 := rfl

@[simp] theorem size_cons (a : List Char) (args : List (List Char)) :
    size (a :: args) = a.length + 1 + size args := by
  rw [size, List.map_cons, List.sum_cons]
  rfl

theorem size_append (as bs : List (List Char)) : size (as ++ bs) = size as + size bs := by
  rw [size, List.map_append, List.sum_append]
  rfl

namespace State

/-- What has been read of the current argument. -/
def read (s : State) : Nat := s.text.length + 1 + s.slashes

/-- The first of two quotation marks has paid for both. -/
def slack (s : State) : Nat := if s.mode = .closing then 1 else 0

theorem size_finish_le (s : State) : size s.finish ≤ s.read := by
  obtain ⟨arg, n, mode⟩ := s
  cases arg with
  | none => exact Nat.zero_le _
  | some a =>
    simp only [finish, read, text, Option.toList_some, List.map_cons, List.map_nil, size_cons,
      size_nil, List.length_append, List.length_replicate, Option.getD_some]
    omega

theorem step_quote (s : State) : s.step '"' =
    if s.mode = .closing then ([], ⟨some (s.text ++ ['"']), 0, .quoted⟩)
    else if s.slashes % 2 = 1 then
      ([], ⟨some (s.text ++ List.replicate (s.slashes / 2) '\\' ++ ['"']), 0, s.mode⟩)
    else ([], ⟨some (s.text ++ List.replicate (s.slashes / 2) '\\'), 0,
      if s.mode = .quoted then .closing else .quoted⟩) := by
  rw [step, if_neg (by decide), if_pos rfl]

/-- A quotation mark costs at least half a character. -/
theorem step_quote_cost (s : State) :
    2 * (size (s.step '"').1 + (s.step '"').2.read) + (s.step '"').2.slack + 1 ≤
      2 * (s.read + 1) + s.slack := by
  obtain ⟨arg, n, mode⟩ := s
  rw [step_quote]
  by_cases hc : mode = .closing
  · subst hc
    simp [read, slack, text]
  · rw [if_neg hc]
    by_cases hodd : n % 2 = 1
    · rw [if_pos hodd]
      simp [read, slack, text, hc]
      omega
    · rw [if_neg hodd]
      by_cases hq : mode = .quoted
      · simp [read, slack, text, hq]
        omega
      · simp [read, slack, text, hq]
        omega

/-- Any other character is read at most once. -/
theorem step_cost (s : State) {c : Char} (hc : c ≠ '"') :
    size (s.step c).1 + (s.step c).2.read ≤ s.read + 1 ∧ (s.step c).2.slack = 0 := by
  by_cases hslash : c = '\\'
  · subst hslash
    rw [step_slash]
    refine ⟨le_of_eq ?_, ?_⟩
    · simp only [size_nil, read, text, Option.getD_some]
      omega
    · by_cases hq : s.mode = .quoted <;> simp [slack, hq]
  · by_cases hblank : s.mode ≠ .quoted ∧ isBlank c = true
    · rw [step, if_neg hslash, if_neg hc, if_pos hblank]
      exact ⟨Nat.add_le_add_right s.size_finish_le 1, rfl⟩
    · rw [step_ordinary hslash hc hblank]
      refine ⟨le_of_eq ?_, ?_⟩
      · simp [read, text]
        omega
      · by_cases hq : s.mode = .quoted <;> simp [slack, hq]

end State

/-- Read from any state, the text gives arguments that are shorter than what was read by
at least `k` halves. -/
def Costs (k : Nat) (cs : List Char) : Prop :=
  ∀ s : State, 2 * size (split s cs) + k ≤ 2 * (s.read + cs.length) + s.slack

theorem costs_nil : Costs 0 [] := by
  intro s
  have := s.size_finish_le
  rw [split, List.length_nil]
  omega

theorem Costs.cons {k : Nat} {cs : List Char} (h : Costs k cs) (c : Char) :
    Costs (k + [c].count '"') (c :: cs) := by
  intro s
  have hrest := h (s.step c).2
  rw [split, size_append, List.length_cons]
  by_cases hc : c = '"'
  · subst hc
    have := s.step_quote_cost
    rw [List.count_singleton_self]
    omega
  · obtain ⟨hread, hslack⟩ := s.step_cost hc
    rw [List.count_eq_zero.mpr fun hmem => hc (List.mem_singleton.mp hmem).symm]
    omega

/-- A quotation mark in a text costs half a character. -/
theorem Costs.append {k : Nat} {cs : List Char} (h : Costs k cs) (t : List Char) :
    Costs (k + t.count '"') (t ++ cs) := by
  induction t with
  | nil => exact h
  | cons c t ih =>
    have hcount : (c :: t).count '"' = t.count '"' + [c].count '"' := by
      rw [← List.singleton_append, List.count_append, add_comm]
    rw [hcount, ← add_assoc]
    exact ih.cons c

/-- After the end of a quoted part, all but a quotation mark is read as outside. -/
theorem split_closing {a : Option (List Char)} {n : Nat} {cs : List Char}
    (h : cs.head? ≠ some '"') : split ⟨a, n, .closing⟩ cs = split ⟨a, n, .plain⟩ cs := by
  cases cs with
  | nil => rfl
  | cons c cs =>
    have hc : c ≠ '"' := fun heq => h (congrArg some heq)
    have hstep : State.step ⟨a, n, .closing⟩ c = State.step ⟨a, n, .plain⟩ c := by
      simp [State.step, hc, State.text, State.finish]
    rw [split, split, hstep]

/-- A quotation mark on its own, not after a backslash, only changes the mode. -/
theorem split_lone {s : State} (hslashes : s.slashes = 0) (hmode : s.mode ≠ .closing)
    {cs : List Char} (hcs : cs.head? ≠ some '"') :
    ∃ s', split s ('"' :: cs) = split s' cs ∧ s'.read ≤ s.read ∧ s'.slack = 0 := by
  have hstep : s.step '"' =
      ([], ⟨some s.text, 0, if s.mode = .quoted then .closing else .quoted⟩) := by
    rw [State.step_quote, if_neg hmode, hslashes, if_neg (by decide), Nat.zero_div,
      List.replicate_zero, List.append_nil]
  by_cases hq : s.mode = .quoted
  · rw [if_pos hq] at hstep
    refine ⟨⟨some s.text, 0, .plain⟩, ?_, Nat.le_add_right _ _, rfl⟩
    rw [split, hstep]
    exact split_closing hcs
  · rw [if_neg hq] at hstep
    refine ⟨⟨some s.text, 0, .quoted⟩, ?_, Nat.le_add_right _ _, rfl⟩
    rw [split, hstep]
    rfl

/-- Such a quotation mark costs a whole character. -/
theorem Costs.lone {k : Nat} {cs : List Char} (h : Costs k cs) (hcs : cs.head? ≠ some '"')
    {c : Char} (hslash : c ≠ '\\') (hquote : c ≠ '"') : Costs (k + 2) (c :: '"' :: cs) := by
  intro s
  obtain ⟨hread, -⟩ := s.step_cost hquote
  have hsettled : (s.step c).2.slashes = 0 ∧ (s.step c).2.mode ≠ .closing := by
    by_cases hblank : s.mode ≠ .quoted ∧ isBlank c = true
    · rw [State.step, if_neg hslash, if_neg hquote, if_pos hblank]
      exact ⟨rfl, fun h => by cases h⟩
    · rw [step_ordinary hslash hquote hblank]
      refine ⟨rfl, ?_⟩
      by_cases hq : s.mode = .quoted <;> simp [hq]
  obtain ⟨s', hsplit, hread', hslack⟩ := split_lone hsettled.1 hsettled.2 hcs
  have hrest := h s'
  rw [split, hsplit, size_append, List.length_cons, List.length_cons]
  omega

end PlanetariumFD.WindowsArguments
