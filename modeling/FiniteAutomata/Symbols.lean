import FiniteAutomata.Ordered
/-!
# Alphabets and maps from symbols

A symbol is any character. An `Alphabet` is a set of symbols and a `SymbolMap` gives values to some
symbols; both are kept in ascending order of code points, which is the order they are read in.
-/

namespace FiniteAutomata

theorem Symbol.key_injective (a b : Char) (h : a.toNat = b.toNat) : a = b :=
  Char.ext (UInt32.toNat_inj.1 h)

/-- A set of symbols, least code point first. -/
abbrev Alphabet := Ordered Char.toNat

namespace Alphabet

theorem mem_ofList {l : List Char} {c : Char} : c ∈ (Ordered.ofList l : Alphabet) ↔ c ∈ l :=
  Ordered.mem_ofList Symbol.key_injective

end Alphabet

/-- Values of some symbols, least code point first. -/
abbrev SymbolMap (β : Type) := Ordered (fun entry : Char × β => entry.1.toNat)

namespace SymbolMap

variable {β : Type}

/-- The value of `c`. -/
def get? (m : SymbolMap β) (c : Char) : Option β := (m.find? c.toNat).map Prod.snd

/-- `m` with the value `b` at `c`. -/
def put (m : SymbolMap β) (c : Char) (b : β) : SymbolMap β := m.insert (c, b)

theorem get?_eq_some_iff {m : SymbolMap β} {c : Char} {b : β} : m.get? c = some b ↔ (c, b) ∈ m := by
  simp only [get?, Option.map_eq_some_iff, Ordered.find?_eq_some_iff]
  constructor
  · rintro ⟨⟨d, b'⟩, ⟨hmem, hkey⟩, rfl⟩
    obtain rfl := Symbol.key_injective d c hkey
    exact hmem
  · exact fun h => ⟨(c, b), ⟨h, rfl⟩, rfl⟩

theorem mem_put {m : SymbolMap β} {c d : Char} {b x : β} :
    (d, x) ∈ m.put c b ↔ (d = c ∧ x = b) ∨ (d ≠ c ∧ (d, x) ∈ m) := by
  have key : d.toNat = c.toNat ↔ d = c := ⟨Symbol.key_injective d c, congrArg _⟩
  simp only [put, Ordered.mem_insert, Prod.mk.injEq, ne_eq, key]
  grind

theorem get?_put {m : SymbolMap β} {c d : Char} {b : β} :
    (m.put c b).get? d = if d = c then some b else m.get? d := by
  ext x
  rw [get?_eq_some_iff, mem_put]
  split
  · rename_i h
    subst h
    simpa using eq_comm
  · rename_i h
    simp [h, get?_eq_some_iff]

/-- The symbols that have a value. -/
def symbols (m : SymbolMap β) : Alphabet := ⟨m.toList.map Prod.fst, List.pairwise_map.2 m.ascending⟩

theorem mem_symbols {m : SymbolMap β} {c : Char} : c ∈ m.symbols ↔ ∃ b, (c, b) ∈ m := by
  show c ∈ m.toList.map Prod.fst ↔ _
  simp [Ordered.mem_toList]

end SymbolMap

end FiniteAutomata
