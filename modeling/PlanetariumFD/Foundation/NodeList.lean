import Mathlib

/-!
# Linked lists with node identities

A linked list as its clients see it: an element sits in a node, a pointer or an
iterator is the node's address, and an address is handed out once. Insertion is
at the back only, so the addresses along the list increase. Erasing a node
leaves all other nodes, and hence all other iterators, as they were.
-/

namespace PlanetariumFD

universe u v

/-! ## Positions of a list -/

/-- What stands in a list with one element more at the end. -/
theorem getElem?_snoc_cases {α : Type u} {xs : List α} {x y : α} {k : Nat}
    (h : (xs ++ [y])[k]? = some x) : xs[k]? = some x ∨ k = xs.length ∧ x = y := by
  by_cases hk : k < xs.length
  · rw [List.getElem?_append_left hk] at h
    exact .inl h
  · rw [List.getElem?_append_right (by omega), List.getElem?_singleton] at h
    split at h
    · cases h
      exact .inr ⟨by omega, rfl⟩
    · cases h

/-- What stands in a list with one element exchanged. -/
theorem getElem?_set_cases {α : Type u} {xs : List α} {x y : α} {j k : Nat}
    (h : (xs.set k y)[j]? = some x) : j = k ∧ x = y ∨ j ≠ k ∧ xs[j]? = some x := by
  by_cases hkj : k = j
  · subst hkj
    obtain ⟨hlt, -⟩ := List.getElem?_eq_some_iff.mp h
    rw [List.getElem?_set_self (by simpa using hlt)] at h
    exact .inl ⟨rfl, (Option.some.inj h).symm⟩
  · rw [List.getElem?_set_ne hkj] at h
    exact .inr ⟨Ne.symm hkj, h⟩

/-! ## Nodes -/

@[ext]
structure NodeList (α : Type u) where
  nodes : List (Nat × α)
  fresh : Nat
  ordered : (nodes.map Prod.fst).Pairwise (· < ·)
  below : ∀ a ∈ nodes.map Prod.fst, a < fresh

namespace NodeList

variable {α : Type u} {β : Type v}

def empty : NodeList α := ⟨[], 0, List.Pairwise.nil, by simp⟩

def addrs (l : NodeList α) : List Nat := l.nodes.map Prod.fst

def vals (l : NodeList α) : List α := l.nodes.map Prod.snd

def size (l : NodeList α) : Nat := l.nodes.length

/-- Dereference an address; `none` for a node that is not in the list. -/
def get? (l : NodeList α) (a : Nat) : Option α :=
  (l.nodes.find? fun p => p.1 = a).map Prod.snd

/-- The first node's address; `none` stands for the end of the list. -/
def front? (l : NodeList α) : Option Nat := l.addrs.head?

/-- The address of the node that follows `a` in the list. -/
def next? (l : NodeList α) (a : Nat) : Option Nat := l.addrs.find? fun b => a < b

def pushBack (l : NodeList α) (x : α) : NodeList α where
  nodes := l.nodes ++ [(l.fresh, x)]
  fresh := l.fresh + 1
  ordered := by
    simp only [List.map_append, List.map_cons, List.map_nil, List.pairwise_append,
      List.mem_singleton]
    exact ⟨l.ordered, List.pairwise_singleton _ _, fun a ha b hb => hb ▸ l.below a ha⟩
  below := by
    intro a ha
    simp only [List.map_append, List.map_cons, List.map_nil, List.mem_append,
      List.mem_singleton] at ha
    rcases ha with ha | rfl
    · exact Nat.lt_succ_of_lt (l.below a ha)
    · exact Nat.lt_succ_self _

def erase (l : NodeList α) (a : Nat) : NodeList α where
  nodes := l.nodes.filter fun p => p.1 ≠ a
  fresh := l.fresh
  ordered := l.ordered.sublist (List.filter_sublist.map _)
  below := fun b hb => l.below b ((List.filter_sublist.map _).subset hb)

/-- Change every element, given its address. -/
def alter (l : NodeList α) (f : Nat → α → α) : NodeList α where
  nodes := l.nodes.map fun p => (p.1, f p.1 p.2)
  fresh := l.fresh
  ordered := by
    rw [List.map_map]
    exact l.ordered
  below := by
    rw [List.map_map]
    exact l.below

/-- Write through the pointer `a`. -/
def modify (l : NodeList α) (a : Nat) (f : α → α) : NodeList α :=
  l.alter fun b x => if b = a then f x else x

def mapVals (l : NodeList α) (f : α → α) : NodeList α := l.alter fun _ => f

/-- Keep the nodes whose element satisfies `p`. -/
def filterVals (l : NodeList α) (p : α → Bool) : NodeList α where
  nodes := l.nodes.filter fun q => p q.2
  fresh := l.fresh
  ordered := l.ordered.sublist (List.filter_sublist.map _)
  below := fun b hb => l.below b ((List.filter_sublist.map _).subset hb)

def pushAll (l : NodeList α) (xs : List α) : NodeList α := xs.foldl pushBack l

/-- A loop over the nodes whose body may fail. -/
def mapNodesM {ε : Type*} (f : α → Except ε α) :
    (ns : List (Nat × α)) → Except ε {ms : List (Nat × α) // ms.map Prod.fst = ns.map Prod.fst}
  | [] => .ok ⟨[], rfl⟩
  | p :: ns =>
    match f p.2, mapNodesM f ns with
    | .error e, _ => .error e
    | .ok _, .error e => .error e
    | .ok y, .ok ms => .ok ⟨(p.1, y) :: ms.1, by simp [ms.2]⟩

def mapValsM {ε : Type*} (l : NodeList α) (f : α → Except ε α) : Except ε (NodeList α) :=
  (mapNodesM f l.nodes).map fun ms =>
    ⟨ms.1, l.fresh, by rw [ms.2]; exact l.ordered, by rw [ms.2]; exact l.below⟩

@[simp] theorem pushBack_fresh (l : NodeList α) (x : α) : (l.pushBack x).fresh = l.fresh + 1 := rfl

@[simp] theorem erase_fresh (l : NodeList α) (a : Nat) : (l.erase a).fresh = l.fresh := rfl

@[simp] theorem alter_fresh (l : NodeList α) (f : Nat → α → α) : (l.alter f).fresh = l.fresh := rfl

@[simp] theorem modify_fresh (l : NodeList α) (a : Nat) (f : α → α) :
    (l.modify a f).fresh = l.fresh := rfl

@[simp] theorem addrs_pushBack (l : NodeList α) (x : α) :
    (l.pushBack x).addrs = l.addrs ++ [l.fresh] := by
  simp [addrs, pushBack]

@[simp] theorem addrs_erase (l : NodeList α) (a : Nat) :
    (l.erase a).addrs = l.addrs.filter fun b => b ≠ a := by
  simp only [addrs, erase, List.filter_map]
  rfl

@[simp] theorem addrs_alter (l : NodeList α) (f : Nat → α → α) : (l.alter f).addrs = l.addrs := by
  simp [addrs, alter]

@[simp] theorem addrs_modify (l : NodeList α) (a : Nat) (f : α → α) :
    (l.modify a f).addrs = l.addrs := addrs_alter l _

@[simp] theorem addrs_length (l : NodeList α) : l.addrs.length = l.size := by simp [addrs, size]

theorem nodup_addrs (l : NodeList α) : l.addrs.Nodup :=
  l.ordered.imp fun h => Nat.ne_of_lt h

theorem addr_lt_fresh {l : NodeList α} {a : Nat} (h : a ∈ l.addrs) : a < l.fresh := l.below a h

theorem mem_addrs_iff {l : NodeList α} {a : Nat} : a ∈ l.addrs ↔ ∃ x, (a, x) ∈ l.nodes := by
  simp [addrs]

theorem mem_vals_iff {l : NodeList α} {x : α} : x ∈ l.vals ↔ ∃ a, (a, x) ∈ l.nodes := by
  simp [vals]

theorem mem_pushBack_nodes {l : NodeList α} {x : α} {p : Nat × α} :
    p ∈ (l.pushBack x).nodes ↔ p ∈ l.nodes ∨ p = (l.fresh, x) := by
  simp [pushBack]

theorem mem_erase_nodes {l : NodeList α} {a : Nat} {p : Nat × α} :
    p ∈ (l.erase a).nodes ↔ p ∈ l.nodes ∧ p.1 ≠ a := by
  simp [erase]

theorem mem_alter_nodes {l : NodeList α} {f : Nat → α → α} {p : Nat × α} :
    p ∈ (l.alter f).nodes ↔ ∃ x, (p.1, x) ∈ l.nodes ∧ p.2 = f p.1 x := by
  simp only [alter, List.mem_map, Prod.exists]
  constructor
  · rintro ⟨a, x, hm, rfl⟩
    exact ⟨x, hm, rfl⟩
  · rintro ⟨x, hm, he⟩
    exact ⟨p.1, x, hm, by rw [← he]⟩

/-- Two nodes at one address are the same node. -/
theorem node_unique {l : NodeList α} {a : Nat} {x y : α} (hx : (a, x) ∈ l.nodes)
    (hy : (a, y) ∈ l.nodes) : x = y := by
  have hn : (l.nodes.map Prod.fst).Nodup := l.nodup_addrs
  have := List.inj_on_of_nodup_map hn hx hy rfl
  exact congrArg Prod.snd this

theorem get?_eq_some_iff {l : NodeList α} {a : Nat} {x : α} :
    l.get? a = some x ↔ (a, x) ∈ l.nodes := by
  simp only [get?, Option.map_eq_some_iff]
  constructor
  · rintro ⟨p, hp, rfl⟩
    have ha : p.1 = a := by simpa using List.find?_some hp
    exact ha ▸ List.mem_of_find?_eq_some hp
  · intro hm
    cases hf : l.nodes.find? fun p => p.1 = a with
    | none => exact absurd (List.find?_eq_none.mp hf _ hm) (by simp)
    | some p =>
      have ha : p.1 = a := by simpa using List.find?_some hf
      exact ⟨p, rfl, node_unique (ha ▸ List.mem_of_find?_eq_some hf) hm⟩

theorem get?_eq_none_iff {l : NodeList α} {a : Nat} : l.get? a = none ↔ a ∉ l.addrs := by
  rw [mem_addrs_iff, ← not_iff_not, not_not, ← ne_eq, Option.ne_none_iff_exists']
  simp only [get?_eq_some_iff]

theorem get?_isSome_iff {l : NodeList α} {a : Nat} : (l.get? a).isSome ↔ a ∈ l.addrs := by
  rw [Option.isSome_iff_ne_none, ne_eq, get?_eq_none_iff, not_not]

theorem get?_alter (l : NodeList α) (f : Nat → α → α) (a : Nat) :
    (l.alter f).get? a = (l.get? a).map (f a) := by
  cases h : l.get? a with
  | none =>
    rw [get?_eq_none_iff] at h
    simpa [get?_eq_none_iff] using h
  | some x =>
    rw [Option.map_some, get?_eq_some_iff, mem_alter_nodes]
    exact ⟨x, get?_eq_some_iff.mp h, rfl⟩

theorem get?_modify_of_ne (l : NodeList α) {a b : Nat} (h : b ≠ a) (f : α → α) :
    (l.modify a f).get? b = l.get? b := by
  simp [modify, get?_alter, h]

theorem alter_alter (l : NodeList α) (f g : Nat → α → α) :
    (l.alter f).alter g = l.alter fun a x => g a (f a x) :=
  NodeList.ext (by simp [alter, Function.comp_def]) rfl

theorem alter_congr (l : NodeList α) {f g : Nat → α → α}
    (h : ∀ a x, l.get? a = some x → f a x = g a x) : l.alter f = l.alter g :=
  NodeList.ext (List.map_congr_left fun p hp => by rw [h p.1 p.2 (get?_eq_some_iff.mpr hp)]) rfl

theorem alter_eq_self (l : NodeList α) {f : Nat → α → α} (h : ∀ a x, f a x = x) :
    l.alter f = l :=
  NodeList.ext (by simp [alter, h]) rfl

theorem erase_alter (l : NodeList α) (f : Nat → α → α) (a : Nat) :
    (l.alter f).erase a = (l.erase a).alter f :=
  NodeList.ext (by simp [alter, erase, List.filter_map, Function.comp_def]) rfl

/-- What was written to a node goes with it. -/
theorem erase_modify (l : NodeList α) (a : Nat) (f : α → α) : (l.modify a f).erase a = l.erase a := by
  refine (erase_alter l _ a).trans (NodeList.ext ?_ rfl)
  simp only [alter, erase]
  refine (List.map_congr_left fun p hp => ?_).trans (List.map_id _)
  rw [if_neg (of_decide_eq_true (List.mem_filter.mp hp).2)]
  rfl

theorem get?_erase_of_ne (l : NodeList α) {a b : Nat} (h : b ≠ a) :
    (l.erase a).get? b = l.get? b := by
  ext x
  simp [get?_eq_some_iff, mem_erase_nodes, h]

theorem get?_pushBack_of_lt (l : NodeList α) {a : Nat} (h : a < l.fresh) (x : α) :
    (l.pushBack x).get? a = l.get? a := by
  ext y
  simp only [get?_eq_some_iff, mem_pushBack_nodes, Prod.mk.injEq]
  exact ⟨fun hp => hp.resolve_right fun he => absurd he.1 (Nat.ne_of_lt h), .inl⟩

/-- What can be read stays readable. -/
theorem get?_pushBack_of_eq_some {l : NodeList α} {a : Nat} {y : α} (h : l.get? a = some y) (x : α) :
    (l.pushBack x).get? a = some y := by
  have hmem : a ∈ l.addrs := get?_isSome_iff.mp (by rw [h]; rfl)
  rw [get?_pushBack_of_lt l (addr_lt_fresh hmem), h]

theorem get?_mapVals (l : NodeList α) (f : α → α) (a : Nat) :
    (l.mapVals f).get? a = (l.get? a).map f := get?_alter l _ a

@[simp] theorem addrs_mapVals (l : NodeList α) (f : α → α) : (l.mapVals f).addrs = l.addrs :=
  addrs_alter l _

@[simp] theorem vals_mapVals (l : NodeList α) (f : α → α) : (l.mapVals f).vals = l.vals.map f := by
  simp [vals, mapVals, alter, Function.comp_def]

@[simp] theorem mapVals_fresh (l : NodeList α) (f : α → α) : (l.mapVals f).fresh = l.fresh := rfl

theorem pushAll_cons (l : NodeList α) (x : α) (xs : List α) :
    l.pushAll (x :: xs) = (l.pushBack x).pushAll xs := rfl

@[simp] theorem pushAll_fresh (l : NodeList α) (xs : List α) :
    (l.pushAll xs).fresh = l.fresh + xs.length := by
  induction xs generalizing l with
  | nil => rfl
  | cons x xs ih =>
    rw [pushAll_cons, ih, pushBack_fresh, List.length_cons]
    omega

/-- The new nodes get the next addresses in order. -/
theorem pushAll_nodes (l : NodeList α) (xs : List α) :
    (l.pushAll xs).nodes = l.nodes ++ (xs.zipIdx l.fresh).map Prod.swap := by
  induction xs generalizing l with
  | nil => simp [pushAll]
  | cons x xs ih =>
    rw [pushAll_cons, ih, List.zipIdx_cons, List.map_cons]
    simp [pushBack]

@[simp] theorem vals_pushAll (l : NodeList α) (xs : List α) :
    (l.pushAll xs).vals = l.vals ++ xs := by
  rw [vals, pushAll_nodes, List.map_append, List.map_map]
  congr 1
  have hswap : (Prod.snd ∘ Prod.swap : α × Nat → α) = Prod.fst := rfl
  rw [hswap, List.zipIdx_map_fst]

theorem mem_pushAll_nodes {l : NodeList α} {xs : List α} {p : Nat × α} :
    p ∈ (l.pushAll xs).nodes ↔ p ∈ l.nodes ∨ ∃ i : Nat, xs[i]? = some p.2 ∧ p.1 = l.fresh + i := by
  rw [pushAll_nodes, List.mem_append]
  refine or_congr_right ?_
  simp only [List.mem_map, Prod.exists, List.mk_mem_zipIdx_iff_le_and_getElem?_sub]
  constructor
  · rintro ⟨x, a, ⟨hle, hx⟩, rfl⟩
    exact ⟨a - l.fresh, hx, by simp only [Prod.fst_swap]; omega⟩
  · rintro ⟨i, hx, ha⟩
    refine ⟨p.2, p.1, ⟨by omega, ?_⟩, rfl⟩
    rw [ha, Nat.add_sub_cancel_left, hx]

theorem mem_filterVals_nodes {l : NodeList α} {p : α → Bool} {q : Nat × α} :
    q ∈ (l.filterVals p).nodes ↔ q ∈ l.nodes ∧ p q.2 = true := List.mem_filter

@[simp] theorem filterVals_fresh (l : NodeList α) (p : α → Bool) :
    (l.filterVals p).fresh = l.fresh := rfl

/-! ## Working at a position of the list -/

section Position

variable {l : NodeList α} {pre suf : List (Nat × α)} {a : Nat} {x : α}

theorem not_mem_of_split (h : l.nodes = pre ++ (a, x) :: suf) :
    (∀ p ∈ pre, p.1 ≠ a) ∧ ∀ p ∈ suf, p.1 ≠ a := by
  have hn := l.nodup_addrs
  simp only [addrs, h, List.map_append, List.map_cons, List.nodup_append, List.nodup_cons,
    List.mem_map, List.mem_cons] at hn
  obtain ⟨-, ⟨hs, -⟩, hd⟩ := hn
  exact ⟨fun p hp => hd _ ⟨p, hp, rfl⟩ a (.inl rfl), fun p hp he => hs ⟨p, hp, he⟩⟩

theorem get?_of_split (h : l.nodes = pre ++ (a, x) :: suf) : l.get? a = some x := by
  rw [get?_eq_some_iff, h]
  simp

theorem modify_of_split (h : l.nodes = pre ++ (a, x) :: suf) (f : α → α) :
    (l.modify a f).nodes = pre ++ (a, f x) :: suf := by
  obtain ⟨hp, hs⟩ := not_mem_of_split h
  -- the nodes on both sides have other addresses
  have same : ∀ ns : List (Nat × α), (∀ p ∈ ns, p.1 ≠ a) →
      ns.map (fun p => (p.1, if p.1 = a then f p.2 else p.2)) = ns := by
    intro ns hn
    conv_rhs => rw [← List.map_id ns]
    exact List.map_congr_left fun p hm => by simp [hn p hm]
  simp only [modify, alter, h, List.map_append, List.map_cons, same pre hp, same suf hs, if_true]

theorem erase_of_split (h : l.nodes = pre ++ (a, x) :: suf) : (l.erase a).nodes = pre ++ suf := by
  obtain ⟨hp, hs⟩ := not_mem_of_split h
  simp only [erase, h, List.filter_append]
  rw [List.filter_eq_self.mpr (by simpa using fun b y hm => hp (b, y) hm),
    List.filter_cons_of_neg (by simp),
    List.filter_eq_self.mpr (by simpa using fun b y hm => hs (b, y) hm)]

end Position

/-! ## Lists that are pushed at the back and erased at the front -/

/-- The list holds every address handed out from `lo` on. -/
def SpansFrom (l : NodeList α) (lo : Nat) : Prop :=
  lo ≤ l.fresh ∧ l.addrs = List.range' lo (l.fresh - lo)

namespace SpansFrom

variable {l : NodeList α} {lo : Nat}

theorem size_eq (h : l.SpansFrom lo) : l.size = l.fresh - lo := by
  rw [← addrs_length, h.2, List.length_range']

theorem mem_addrs_iff (h : l.SpansFrom lo) {a : Nat} : a ∈ l.addrs ↔ lo ≤ a ∧ a < l.fresh := by
  have := h.1
  rw [h.2, List.mem_range'_1]
  omega

theorem pushBack (h : l.SpansFrom lo) (x : α) : (l.pushBack x).SpansFrom lo := by
  obtain ⟨hle, he⟩ := h
  refine ⟨Nat.le_succ_of_le hle, ?_⟩
  rw [addrs_pushBack, he, pushBack_fresh, Nat.sub_add_comm hle, List.range'_concat]
  congr 2
  omega

theorem alter (h : l.SpansFrom lo) (f : Nat → α → α) : (l.alter f).SpansFrom lo :=
  ⟨h.1, by rw [addrs_alter, h.2, alter_fresh]⟩

theorem erase_front (h : l.SpansFrom lo) (hlt : lo < l.fresh) : (l.erase lo).SpansFrom (lo + 1) := by
  refine ⟨hlt, ?_⟩
  obtain ⟨n, hn⟩ : ∃ n, l.fresh - lo = n + 1 := ⟨l.fresh - lo - 1, by omega⟩
  have hn' : l.fresh - (lo + 1) = n := by omega
  rw [addrs_erase, h.2, hn, List.range'_succ, erase_fresh, hn', List.filter_cons_of_neg (by simp)]
  refine List.filter_eq_self.mpr fun b hb => ?_
  rw [List.mem_range'_1] at hb
  simp only [ne_eq, decide_eq_true_eq]
  omega

theorem front?_eq (h : l.SpansFrom lo) (hlt : lo < l.fresh) : l.front? = some lo := by
  obtain ⟨n, hn⟩ : ∃ n, l.fresh - lo = n + 1 := ⟨l.fresh - lo - 1, by omega⟩
  rw [front?, h.2, hn, List.range'_succ, List.head?_cons]

theorem front?_eq_none (h : l.SpansFrom lo) (hle : l.fresh ≤ lo) : l.front? = none := by
  rw [front?, h.2, Nat.sub_eq_zero_of_le hle]
  rfl

theorem next?_eq (h : l.SpansFrom lo) {a : Nat} (ha : lo ≤ a + 1) (hlt : a + 1 < l.fresh) :
    l.next? a = some (a + 1) := by
  -- cut the interval at `a + 1`: nothing before it is past `a`
  have hs : List.range' lo (l.fresh - lo) =
      List.range' lo (a + 1 - lo) ++ (a + 1) :: List.range' (a + 1 + 1) (l.fresh - (a + 2)) := by
    have hc : l.fresh - lo = (a + 1 - lo) + (l.fresh - (a + 2) + 1) := by omega
    have hm : lo + (a + 1 - lo) = a + 1 := by omega
    rw [hc, ← List.range'_append_1, List.range'_succ, hm]
  rw [next?, h.2, hs, List.find?_append, List.find?_eq_none.mpr, Option.none_or,
    List.find?_cons_of_pos (by simp)]
  intro b hb
  rw [List.mem_range'_1] at hb
  simp only [decide_eq_true_eq]
  omega

end SpansFrom

/-- Nothing follows the last address handed out. -/
theorem next?_eq_none {l : NodeList α} {a : Nat} (h : l.fresh ≤ a + 1) : l.next? a = none := by
  rw [next?, List.find?_eq_none]
  intro b hb
  have := addr_lt_fresh hb
  rw [decide_eq_true_eq]
  omega

section
variable {l : NodeList α} {pre post : List (Nat × α)} {a : Nat} {x : α}

theorem get?_of_nodes_eq (h : l.nodes = pre ++ (a, x) :: post) : l.get? a = some x := by
  rw [get?_eq_some_iff, h]
  exact List.mem_append_right _ List.mem_cons_self

/-- The iterator moves to the first of the nodes that follow. -/
theorem next?_of_nodes_eq (h : l.nodes = pre ++ (a, x) :: post) :
    l.next? a = post.head?.map Prod.fst := by
  have hordered := l.ordered
  rw [h, List.map_append, List.map_cons, List.pairwise_append] at hordered
  obtain ⟨-, hpost, hcross⟩ := hordered
  have hbefore : (pre.map Prod.fst).find? (fun b => decide (a < b)) = none := by
    rw [List.find?_eq_none]
    intro b hb
    have hlt := hcross b hb a List.mem_cons_self
    rw [decide_eq_true_eq]
    omega
  rw [next?, addrs, h, List.map_append, List.map_cons, List.find?_append, hbefore, Option.none_or,
    List.find?_cons_of_neg (by simp)]
  cases post with
  | nil => rfl
  | cons p post =>
    have hlt : a < p.1 := List.rel_of_pairwise_cons hpost List.mem_cons_self
    rw [List.map_cons, List.find?_cons_of_pos (by simpa using hlt)]
    rfl

end

/-! ## Loops that may fail -/

theorem mapValsM_ok {ε : Type*} {l : NodeList α} {f : α → Except ε α} {g : α → α}
    (h : ∀ x ∈ l.vals, f x = .ok (g x)) : l.mapValsM f = .ok (l.mapVals g) := by
  have key : ∀ ns : List (Nat × α), (∀ x ∈ ns.map Prod.snd, f x = .ok (g x)) →
      mapNodesM f ns = .ok ⟨ns.map fun p => (p.1, g p.2), by simp [Function.comp_def]⟩ := by
    intro ns hns
    induction ns with
    | nil => rfl
    | cons p ns ih =>
      simp only [List.map_cons, List.mem_cons, forall_eq_or_imp] at hns
      simp only [mapNodesM, hns.1, ih hns.2, List.map_cons]
  rw [mapValsM, key _ h]
  rfl

/-- If the loop succeeds, so did its body at every node. -/
theorem body_ok_of_mapValsM {ε : Type*} {l l' : NodeList α} {f : α → Except ε α}
    (h : l.mapValsM f = .ok l') {x : α} (hx : x ∈ l.vals) : ∃ y, f x = .ok y := by
  have key : ∀ (ns : List (Nat × α)) ms, mapNodesM f ns = .ok ms →
      ∀ x ∈ ns.map Prod.snd, ∃ y, f x = .ok y := by
    intro ns
    induction ns with
    | nil => exact fun _ _ x hx => by cases hx
    | cons p ns ih =>
      intro ms hm x hx
      simp only [mapNodesM] at hm
      split at hm
      · cases hm
      · cases hm
      · next y qs hy hq =>
        rcases List.mem_cons.mp hx with rfl | hx
        · exact ⟨y, hy⟩
        · exact ih qs hq x hx
  cases hm : mapNodesM f l.nodes with
  | error e => simp [mapValsM, hm, Except.map] at h
  | ok ms => exact key _ ms hm x hx

/-- If the loop fails, so did its body at some node. -/
theorem body_error_of_mapValsM {ε : Type*} {l : NodeList α} {f : α → Except ε α} {e : ε}
    (h : l.mapValsM f = .error e) : ∃ x, f x = .error e := by
  have key : ∀ ns : List (Nat × α), mapNodesM f ns = .error e → ∃ x, f x = .error e := by
    intro ns
    induction ns with
    | nil => exact fun hm => by cases hm
    | cons p ns ih =>
      intro hm
      simp only [mapNodesM] at hm
      split at hm
      · next e' he =>
        cases hm
        exact ⟨p.2, he⟩
      · next y e' hy he =>
        cases hm
        exact ih he
      · cases hm
  cases hm : mapNodesM f l.nodes with
  | error e' =>
    rw [mapValsM, hm] at h
    cases h
    exact key _ hm
  | ok ms =>
    rw [mapValsM, hm] at h
    cases h

end NodeList

end PlanetariumFD
