/-!
# Lists in ascending order of a key

`Ordered key` is a list whose elements ascend strictly in the number that `key` gives them, so a key
occurs at most once. Sets of states, alphabets and maps from symbols are all of this kind.

Main statements: `mem_insert` says what an insertion changes, `mem_ofList` what a collection holds
when the key tells elements apart, and `ext_mem` that two ordered lists with the same members are equal.
-/

namespace FiniteAutomata

/-- Elements in strictly ascending order of their keys. -/
structure Ordered {α : Type} (key : α → Nat) where
  /-- The elements, least key first. -/
  toList : List α
  /-- Keys ascend strictly. -/
  ascending : toList.Pairwise (fun a b => key a < key b)

namespace Ordered

variable {α : Type} {key : α → Nat}

@[ext] theorem ext {s t : Ordered key} (h : s.toList = t.toList) : s = t := by
  cases s; cases t; cases h; rfl

instance [DecidableEq α] : DecidableEq (Ordered key) := fun s t =>
  decidable_of_iff (s.toList = t.toList) ⟨ext, fun h => h ▸ rfl⟩

instance : Membership α (Ordered key) := ⟨fun s a => a ∈ s.toList⟩

theorem mem_toList {s : Ordered key} {a : α} : a ∈ s.toList ↔ a ∈ s := Iff.rfl

instance [DecidableEq α] (s : Ordered key) (a : α) : Decidable (a ∈ s) :=
  inferInstanceAs (Decidable (a ∈ s.toList))

/-! ## Lists with nothing or one thing in them -/

/-- Nothing. -/
def empty : Ordered key := ⟨[], .nil⟩

instance : Inhabited (Ordered key) := ⟨empty⟩

/-- One element. -/
def singleton (a : α) : Ordered key := ⟨[a], List.pairwise_singleton _ a⟩

@[simp] theorem toList_empty : (empty : Ordered key).toList = [] := rfl

@[simp] theorem toList_singleton (a : α) : (singleton a : Ordered key).toList = [a] := rfl

/-- Number of elements. -/
def size (s : Ordered key) : Nat := s.toList.length

/-- Whether there are no elements. -/
def isEmpty (s : Ordered key) : Bool := s.toList.isEmpty

theorem isEmpty_iff {s : Ordered key} : s.isEmpty = true ↔ ∀ a, a ∉ s :=
  List.isEmpty_iff.trans List.eq_nil_iff_forall_not_mem

/-- The element of least key. -/
def first? (s : Ordered key) : Option α := s.toList.head?

/-! ## Insertion -/

/-- Put `a` at its place in an ascending list; an element of the same key gives way. -/
def place (key : α → Nat) (a : α) : List α → List α
  | [] => [a]
  | b :: rest =>
    if key a < key b then a :: b :: rest
    else if key a = key b then a :: rest
    else b :: place key a rest

theorem mem_of_mem_place {a x : α} {l : List α} (h : x ∈ place key a l) : x = a ∨ x ∈ l := by
  induction l with
  | nil => simpa [place] using h
  | cons b rest ih => grind [place]

theorem place_ascending {a : α} {l : List α} (h : l.Pairwise (fun a b => key a < key b)) :
    (place key a l).Pairwise (fun a b => key a < key b) := by
  induction l with
  | nil => exact List.pairwise_singleton _ a
  | cons b rest ih =>
    have hb : ∀ y ∈ rest, key b < key y := fun y hy => List.rel_of_pairwise_cons h hy
    have hrest := h.of_cons
    unfold place
    split
    · rename_i hlt
      refine List.pairwise_cons.2 ⟨fun x hx => ?_, h⟩
      rcases List.mem_cons.1 hx with rfl | hx
      · exact hlt
      · exact Nat.lt_trans hlt (hb x hx)
    · split
      · rename_i heq
        exact List.pairwise_cons.2 ⟨fun x hx => heq ▸ hb x hx, hrest⟩
      · refine List.pairwise_cons.2 ⟨fun x hx => ?_, ih hrest⟩
        rcases mem_of_mem_place hx with rfl | hx
        · omega
        · exact hb x hx

/-- `s` with `a` in it, in the stead of an element of the same key. -/
def insert (s : Ordered key) (a : α) : Ordered key := ⟨place key a s.toList, place_ascending s.ascending⟩

theorem mem_place {a x : α} {l : List α} (h : l.Pairwise (fun a b => key a < key b)) :
    x ∈ place key a l ↔ x = a ∨ (x ∈ l ∧ key x ≠ key a) := by
  induction l with
  | nil => simp [place]
  | cons b rest ih =>
    have hb : ∀ y ∈ rest, key b < key y := fun y hy => List.rel_of_pairwise_cons h hy
    have hrest := ih h.of_cons
    unfold place
    split
    · grind
    · split <;> grind

/-- An insertion brings `a`, takes away what had its key, and changes nothing else. -/
theorem mem_insert {s : Ordered key} {a x : α} : x ∈ s.insert a ↔ x = a ∨ (x ∈ s ∧ key x ≠ key a) :=
  mem_place s.ascending

/-! ## Whole lists -/

/-- `s` with all of `l` inserted, first to last. -/
def insertAll (s : Ordered key) (l : List α) : Ordered key := l.foldl insert s

/-- The elements of `l`; of those that share a key, the last. -/
def ofList (l : List α) : Ordered key := empty.insertAll l

/-- `s` with all of `t` inserted. -/
def union (s t : Ordered key) : Ordered key := s.insertAll t.toList

@[simp] theorem insertAll_nil (s : Ordered key) : s.insertAll [] = s := rfl

@[simp] theorem insertAll_cons (s : Ordered key) (a : α) (l : List α) :
    s.insertAll (a :: l) = (s.insert a).insertAll l := rfl

/-- With a key that tells elements apart, nothing gives way. -/
theorem mem_insertAll (inj : ∀ a b, key a = key b → a = b) {s : Ordered key} {l : List α} {x : α} :
    x ∈ s.insertAll l ↔ x ∈ s ∨ x ∈ l := by
  induction l generalizing s with
  | nil => simp
  | cons a rest ih =>
    rw [insertAll_cons, ih, mem_insert]
    have := inj x a
    grind

theorem mem_ofList (inj : ∀ a b, key a = key b → a = b) {l : List α} {x : α} :
    x ∈ (ofList l : Ordered key) ↔ x ∈ l := by
  have : x ∉ (empty : Ordered key) := List.not_mem_nil
  simp [ofList, mem_insertAll inj, this]

theorem mem_union (inj : ∀ a b, key a = key b → a = b) {s t : Ordered key} {x : α} :
    x ∈ s.union t ↔ x ∈ s ∨ x ∈ t :=
  mem_insertAll inj

/-! ## Reading by key -/

/-- The element with key `k`. -/
def find? (s : Ordered key) (k : Nat) : Option α := s.toList.find? (fun a => key a == k)

theorem find?_eq_some_iff {s : Ordered key} {k : Nat} {a : α} : s.find? k = some a ↔ a ∈ s ∧ key a = k := by
  obtain ⟨l, hl⟩ := s
  show l.find? _ = some a ↔ a ∈ l ∧ key a = k
  induction l with
  | nil => simp
  | cons b rest ih =>
    have hb : ∀ y ∈ rest, key b < key y := fun y hy => List.rel_of_pairwise_cons hl hy
    have := ih hl.of_cons
    rw [List.find?_cons]
    grind

/-! ## Equality -/

theorem eq_of_mem_iff {l m : List α} (hl : l.Pairwise (fun a b => key a < key b))
    (hm : m.Pairwise (fun a b => key a < key b)) (h : ∀ a, a ∈ l ↔ a ∈ m) : l = m := by
  induction l generalizing m with
  | nil =>
    cases m with
    | nil => rfl
    | cons b rest => exact absurd ((h b).2 List.mem_cons_self) List.not_mem_nil
  | cons a l ih =>
    cases m with
    | nil => exact absurd ((h a).1 List.mem_cons_self) List.not_mem_nil
    | cons b m =>
      have ha : ∀ y ∈ l, key a < key y := fun y hy => List.rel_of_pairwise_cons hl hy
      have hb : ∀ y ∈ m, key b < key y := fun y hy => List.rel_of_pairwise_cons hm hy
      have hab : a = b := by
        rcases List.mem_cons.1 ((h a).1 List.mem_cons_self) with hab | ham
        · exact hab
        · rcases List.mem_cons.1 ((h b).2 List.mem_cons_self) with hba | hbl
          · exact hba.symm
          · exact absurd (Nat.lt_trans (ha b hbl) (hb a ham)) (Nat.lt_irrefl _)
      subst hab
      refine congrArg (a :: ·) (ih hl.of_cons hm.of_cons fun y => ⟨fun hy => ?_, fun hy => ?_⟩)
      · exact (List.mem_cons.1 ((h y).1 (List.mem_cons_of_mem a hy))).resolve_left
          fun e => absurd (ha y hy) (e ▸ Nat.lt_irrefl _)
      · exact (List.mem_cons.1 ((h y).2 (List.mem_cons_of_mem a hy))).resolve_left
          fun e => absurd (hb y hy) (e ▸ Nat.lt_irrefl _)

/-- Ordered lists with the same members are equal, however they were built. -/
theorem ext_mem {s t : Ordered key} (h : ∀ a, a ∈ s ↔ a ∈ t) : s = t :=
  ext (eq_of_mem_iff s.ascending t.ascending h)

end Ordered

end FiniteAutomata
