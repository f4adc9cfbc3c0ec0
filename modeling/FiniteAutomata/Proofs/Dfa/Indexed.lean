import FiniteAutomata.Proofs.Dfa.Blocks
/-!
# The minimal automaton from arrays

`minimal` puts the states of the minimal automaton together one by one. Here they are made in arrays,
with a check at each place that is read or written: the number of a row's block is entered block by
block (`blockIndex`), the states are first made without edges while the number of each is noted at its
block (`addBlock`), and then each edge is added to the state at its source, where it must not replace
another (`linkSymbol`).

No check fails, and the automaton is the same: `minimal_eq_minimal`.
-/

namespace FiniteAutomata.Dfa.Indexed

/-- The entry of number `i`. -/
def lookup {α : Type} (a : Array α) (i : Nat) : Checked α :=
  match a[i]? with
  | some x => .ok x
  | none => .error (.unknownState i)

/-- The array with `x` as its entry of number `i`. -/
def store {α : Type} (a : Array α) (i : Nat) (x : α) : Checked (Array α) :=
  if h : i < a.size then .ok (a.set i x) else .error (.unknownState i)

/-- For each of `count` rows the number of its block, entered block by block. -/
def blockIndex (p : Partition) (count : Nat) : Checked (Array Nat) :=
  p.zipIdx.foldlM (fun index (block, b) => block.foldlM (fun index r => store index r b) index)
    (Array.replicate count 0)

/-- The rows by acceptance: accepting ones, then the others. -/
def initialPartition (t : TransitionTable) : Checked Partition := do
  let marked ← (List.range t.size).mapM fun r => return (r, ← lookup t.accept r)
  let accepting := (marked.filter (·.2)).map (·.1)
  let rejecting := (marked.filter (!·.2)).map (·.1)
  return [accepting, rejecting].filter (!·.isEmpty)

/-- All blocks parted by the blocks that their rows lead to. -/
def refine (t : TransitionTable) (p : Partition) : Checked Partition := do
  let index ← blockIndex p t.size
  let parts ← p.mapM fun block => do
    let signed ← block.mapM fun r => return (← (do (← t.row r).mapM (lookup index)), r)
    return (splitBy Prod.fst signed).map (·.map Prod.snd)
  return parts.flatten

/-- The result of passes over `p`, at most `bound`, until one adds no block. -/
def stableFrom (t : TransitionTable) : Nat → Partition → Checked Partition
  | 0, _ => .error .unfinished
  | bound + 1, p => do
    let refined ← refine t p
    if refined.length = p.length then return refined
    stableFrom t bound refined

/-- A new state without edges for a block, its number noted at the block. -/
def addBlock (t : TransitionTable) (dead : Row) (made : Dfa × Array (Option StateId)) (B : LedBlock) :
    Checked (Dfa × Array (Option StateId)) := do
  let (dfa, numbers) := made
  let s : DfaState :=
    ⟨.ofList (B.members.filter (· ≠ dead)), Ordered.empty, ← lookup t.accept B.least⟩
  return ({ dfa with states := dfa.states.push s }, ← store numbers B.number (some dfa.size))

/-- The edge of a block for the symbol at place `i` of the alphabet, unless it leads to the dead block. -/
def linkSymbol (t : TransitionTable) (index : Array Nat) (numbers : Array (Option StateId)) (dead : Nat)
    (B : LedBlock) (source : StateId) (dfa : Dfa) (entry : Char × Nat) : Checked Dfa := do
  let target ← lookup index (← lookup (← t.row B.least).toArray entry.2)
  if target = dead then return dfa
  match ← lookup numbers target with
  | some id => dfa.addEdge source entry.1 id
  | none => return dfa

/-- All edges of a block, read off its smallest member. -/
def linkBlock (t : TransitionTable) (index : Array Nat) (numbers : Array (Option StateId)) (dead : Nat)
    (dfa : Dfa) (B : LedBlock) : Checked Dfa := do
  match ← lookup numbers B.number with
  | some source =>
    dfa.alphabet.toList.zipIdx.foldlM (linkSymbol t index numbers dead B source) dfa
  | none => return dfa

/-- The automaton of the blocks of a partition. -/
def rebuild (dfa : Dfa) (t : TransitionTable) (p : Partition) : Checked Dfa := do
  let index ← blockIndex p t.size
  let dead ← lookup index (t.size - 1)
  let start ← lookup index dfa.start
  let live := liveBlocks (← ledBlocks p) start dead
  let (made, numbers) ←
    live.foldlM (addBlock t (t.size - 1)) (⟨#[], 0, dfa.alphabet⟩, Array.replicate p.length none)
  let made := { made with start := (← lookup numbers start).getD made.start }
  live.foldlM (linkBlock t index numbers dead) made

/-- The automaton with the fewest states that accepts the same words. -/
def minimal (dfa : Dfa) : Checked Dfa := do
  let t := TransitionTable.ofDfa dfa
  rebuild dfa t (← stableFrom t t.size (← initialPartition t))

section Arrays

variable {α : Type} {a : Array α} {i j : Nat} {x : α}

theorem lookup_eq (h : a[i]? = some x) : lookup a i = .ok x := by
  unfold lookup
  rw [h]

theorem store_returns (h : i < a.size) (x : α) :
    Returns (store a i x) fun b => b.size = a.size ∧ ∀ j, b[j]? = if j = i then some x else a[j]? := by
  unfold store
  rw [dif_pos h]
  refine .pure ⟨Array.size_set h, fun j => ?_⟩
  rw [Array.getElem?_set]
  simp only [eq_comm]

end Arrays

/-! ## Blocks by row -/

variable {p : Partition} {count : Nat} {same : Row → Row → Prop} {t : TransitionTable} {k : Nat}

/-- The rows have the numbers of their blocks entered, those apart that are still to come. -/
structure Entered (p : Partition) (count : Nat) (toCome : Set Row) (index : Array Nat) : Prop where
  size_eq : index.size = count
  entry_eq : ∀ r < count, r ∉ toCome → index[r]? = some (p.number r)

theorem Entered.store {toCome toCome' : Set Row} {index : Array Nat} {r : Row} (hr : r < count)
    (h : Entered p count toCome index) (hcome : ∀ s ∈ toCome, s = r ∨ s ∈ toCome') :
    Returns (store index r (p.number r)) (Entered p count toCome') := by
  refine (store_returns (h.size_eq ▸ hr) _).mono ?_
  rintro index' ⟨hsize, hentry⟩
  refine ⟨hsize.trans h.size_eq, fun s hs hnot => ?_⟩
  rw [hentry]
  split
  · rename_i hsr
    rw [hsr]
  · rename_i hsr
    exact h.entry_eq s hs fun hmem => (hcome s hmem).elim hsr hnot

theorem Entered.storeAll {toCome toCome' : Set Row} {index : Array Nat} {b : Nat} {rows : List Row}
    (hrows : ∀ r ∈ rows, r < count ∧ p.number r = b) (h : Entered p count toCome index)
    (hcome : ∀ s ∈ toCome, s ∈ rows ∨ s ∈ toCome') :
    Returns (rows.foldlM (fun index r => Indexed.store index r b) index) (Entered p count toCome') := by
  induction rows generalizing toCome index with
  | nil =>
    refine .pure ⟨h.size_eq, fun r hr hnot => h.entry_eq r hr fun hmem => ?_⟩
    exact hnot ((hcome r hmem).resolve_left List.not_mem_nil)
  | cons r rows ih =>
    obtain ⟨⟨hr, rfl⟩, hrows⟩ := List.forall_mem_cons.1 hrows
    rw [List.foldlM_cons]
    have hrest : ∀ s ∈ toCome, s = r ∨ s ∈ {s | s ∈ rows ∨ s ∈ toCome'} := by
      intro s hs
      rcases hcome s hs with hmem | hmem
      · exact (List.mem_cons.1 hmem).imp_right Or.inl
      · exact Or.inr (Or.inr hmem)
    exact (h.store hr hrest).bind fun index' h' => ih hrows h' fun s hs => hs

theorem blockIndex_returns (hp : Parts p count same) :
    Returns (blockIndex p count) fun index => ∀ r < count, index[r]? = some (p.number r) := by
  have hnumber : ∀ x ∈ p.zipIdx, ∀ r ∈ x.1, r < count ∧ p.number r = x.2 := by
    rintro ⟨block, b⟩ hmem r hr
    obtain ⟨hlt, heq⟩ := List.mem_zipIdx' hmem
    have hr : r ∈ p[b] := heq ▸ hr
    exact ⟨(hp.cover r).1 ⟨_, List.getElem_mem hlt, hr⟩, hp.number_eq_of_mem hlt hr⟩
  -- rows of the blocks still to come have no number yet
  refine (Returns.foldlM (I := fun rest index => (∀ x ∈ rest, x ∈ p.zipIdx) ∧
    Entered p count {r | ∃ x ∈ rest, r ∈ x.1} index) ?_ ?_).mono ?_
  · rintro ⟨block, b⟩ rest index ⟨hmem, h⟩
    obtain ⟨hfirst, hrest⟩ := List.forall_mem_cons.1 hmem
    refine (h.storeAll (hnumber _ hfirst) fun s hs => ?_).mono fun index' h' => ⟨hrest, h'⟩
    exact (List.exists_mem_cons_iff _ _ _).1 hs
  · refine ⟨fun x hx => hx, Array.size_replicate, fun r hr hnot => absurd ?_ hnot⟩
    obtain ⟨block, hblock, hrb⟩ := (hp.cover r).2 hr
    obtain ⟨b, hb⟩ := List.mem_iff_getElem?.1 hblock
    exact ⟨(block, b), List.mk_mem_zipIdx_iff_getElem?.2 hb, hrb⟩
  · rintro index ⟨_, h⟩ r hr
    exact h.entry_eq r hr fun ⟨x, hx, _⟩ => absurd hx List.not_mem_nil

theorem lookup_accept (haccept : t.accept.size = t.size) {r : Row} (hr : r < t.size) :
    lookup t.accept r = .ok (t.isAccept r) := by
  have hget := Array.getElem?_eq_getElem (haccept.symm ▸ hr)
  unfold TransitionTable.isAccept
  rw [lookup_eq hget, hget]
  rfl

theorem initialPartition_eq (haccept : t.accept.size = t.size) :
    initialPartition t = .ok t.initialPartition := by
  have hmarked : (List.range t.size).mapM (fun r => do return (r, ← lookup t.accept r)) =
      (.ok ((List.range t.size).map fun r => (r, t.isAccept r)) : Checked _) := by
    refine mapM_eq_ok fun r hr => ?_
    rw [lookup_accept haccept (List.mem_range.1 hr)]
    rfl
  unfold initialPartition TransitionTable.initialPartition
  rw [hmarked]
  simp [List.partition_eq_filter_filter, List.filter_map, Function.comp_def, bind, Except.bind, pure,
    Except.pure]

theorem refine_eq (hp : Parts p t.size same) (ht : t.Closed) :
    refine t p = .ok (t.parted p) := by
  obtain ⟨index, hindex, hnumber⟩ := blockIndex_returns hp
  unfold refine
  rw [hindex]
  refine TransitionTable.flatten_mapM_splitBy fun b hb r hr => ?_
  have hr := (hp.cover r).1 ⟨b, hb, hr⟩
  rw [TransitionTable.row_eq hr]
  exact mapM_eq_ok fun x hx => lookup_eq (hnumber x (ht r hr x hx))

/-- The passes end with the same partition. -/
theorem stableFrom_eq {bound : Nat} {passes : List Partition} (hp : Parts p t.size (t.SameUpTo k))
    (ht : t.Closed) (hpasses : t.passesFrom bound p = .ok passes) :
    ∃ last, passes.getLast? = some last ∧ stableFrom t bound p = .ok last := by
  induction bound generalizing p k passes with
  | zero => cases hpasses
  | succ bound ih =>
    have hnext := TransitionTable.parts_refine hp ht
    rw [TransitionTable.passesFrom_succ (TransitionTable.refine_eq hp ht)] at hpasses
    unfold stableFrom
    rw [refine_eq hp ht]
    generalize t.parted p = refined at hnext hpasses ⊢
    show ∃ last, _ ∧ (if refined.length = p.length then pure refined else
      stableFrom t bound refined) = .ok last
    split at hpasses
    · rename_i hlength
      obtain rfl := Except.ok.inj hpasses
      rw [if_pos hlength]
      exact ⟨refined, rfl, rfl⟩
    · rename_i hlength
      obtain ⟨rest, hrest, heq⟩ := exists_of_bind_eq_ok hpasses
      obtain rfl := Except.ok.inj heq
      obtain ⟨last, hlast, hstable⟩ := ih hnext hrest
      rw [if_neg hlength]
      refine ⟨last, ?_, hstable⟩
      rw [List.getLast?_cons, hlast]
      rfl

/-! ## States and edges of blocks -/

variable {dfa made : Dfa} {live : List LedBlock} {dead m : Nat} {index : Array Nat}
  {numbers : Array (Option StateId)} {B : LedBlock}

/-- The state for a block, without its edges. -/
def bareState (dfa : Dfa) (B : LedBlock) : DfaState :=
  ⟨.ofList (B.members.filter (· ≠ dfa.size)), Ordered.empty, dfa.isAccept B.least⟩

theorem size_accept_ofDfa : (TransitionTable.ofDfa dfa).accept.size = (TransitionTable.ofDfa dfa).size := by
  simp [TransitionTable.ofDfa, TransitionTable.size]

theorem lookup_accept_ofDfa {r : Row} (hr : r ≤ dfa.size) :
    lookup (TransitionTable.ofDfa dfa).accept r = .ok (dfa.isAccept r) := by
  rw [lookup_accept size_accept_ofDfa (by rw [size_ofDfa]; exact Nat.lt_succ_of_le hr), isAccept_ofDfa]

/-- The blocks that are `done` have states, in order, and the numbers of these noted. -/
structure Added (dfa : Dfa) (count : Nat) (done : List LedBlock)
    (made : Dfa × Array (Option StateId)) : Prop where
  dfa_eq : made.1 = ⟨(done.map (bareState dfa)).toArray, 0, dfa.alphabet⟩
  size_eq : made.2.size = count
  number_eq : ∀ b < count, made.2[b]? = some (done.findIdx? (·.number = b))

theorem Added.addBlock_returns {done : List LedBlock} {made : Dfa × Array (Option StateId)}
    (h : Added dfa count done made) (hnumber : B.number < count) (hleast : B.least ≤ dfa.size)
    (hnew : ∀ B' ∈ done, B'.number ≠ B.number) :
    Returns (addBlock (TransitionTable.ofDfa dfa) dfa.size made B) (Added dfa count (done ++ [B])) := by
  obtain ⟨_, numbers⟩ := made
  obtain ⟨rfl, hsize, hnumbers⟩ := h
  have hnone : done.findIdx? (·.number = B.number) = none :=
    List.findIdx?_eq_none_iff.2 fun B' hB' => decide_eq_false (hnew B' hB')
  have hlength : size ⟨(done.map (bareState dfa)).toArray, 0, dfa.alphabet⟩ = done.length := by
    simp [size]
  obtain ⟨numbers', hstore, hsize', hnumbers'⟩ :=
    store_returns (show B.number < numbers.size from hsize ▸ hnumber) (some done.length)
  unfold addBlock
  dsimp only
  rw [lookup_accept_ofDfa hleast, hlength, hstore]
  refine .pure ⟨?_, hsize'.trans hsize, fun b hb => ?_⟩
  · simp [bareState]
  · show numbers'[b]? = _
    rw [hnumbers', List.findIdx?_append]
    split
    · rename_i hbB
      rw [hbB, hnone]
      simp
    · rename_i hbB
      rw [hnumbers b hb]
      simp [Ne.symm hbB]

/-- **States.** The blocks get states in order, and each has the number of its state noted. -/
theorem addBlocks_returns (hled : ∀ B ∈ live, B.number < count ∧ B.least ≤ dfa.size)
    (hdistinct : live.Pairwise fun B B' => B.number ≠ B'.number) :
    Returns (live.foldlM (addBlock (TransitionTable.ofDfa dfa) dfa.size)
      (⟨#[], 0, dfa.alphabet⟩, Array.replicate count none)) (Added dfa count live) := by
  refine (Returns.foldlM (I := fun rest made => ∃ done, live = done ++ rest ∧
    Added dfa count done made) ?_ ?_).mono ?_
  · rintro B rest made ⟨done, hsplit, h⟩
    obtain ⟨hnumber, hleast⟩ := hled B (hsplit ▸ List.mem_append_right done List.mem_cons_self)
    rw [hsplit] at hdistinct
    refine (h.addBlock_returns hnumber hleast fun B' hB' => ?_).mono fun made' h' => ?_
    · exact (List.pairwise_append.1 hdistinct).2.2 B' hB' B List.mem_cons_self
    · exact ⟨done ++ [B], by rw [hsplit, List.append_assoc]; rfl, h'⟩
  · refine ⟨[], rfl, rfl, Array.size_replicate, fun b hb => ?_⟩
    simp [hb]
  · rintro made ⟨done, hsplit, h⟩
    obtain rfl : live = done := hsplit.trans (List.append_nil done)
    exact h

/-- The edges of a block for some symbols, added to those that are there. -/
def putEdges (dfa : Dfa) (p : Partition) (live : List LedBlock) (B : LedBlock)
    (edges : SymbolMap StateId) (symbols : List Char) : SymbolMap StateId :=
  (symbols.zip (symbols.map fun c => p.number (dfa.rowNext B.least c))).foldl
    (putEdge live (p.number dfa.size)) edges

theorem addEdge_append {before after : List DfaState} {s : DfaState} {start q : StateId}
    {alphabet : Alphabet} {c : Char} (hfree : s.edges.get? c = none) :
    addEdge ⟨(before ++ s :: after).toArray, start, alphabet⟩ before.length c q =
      .ok ⟨(before ++ { s with edges := s.edges.put c q } :: after).toArray, start, alphabet⟩ := by
  unfold addEdge
  rw [dif_pos (by simp)]
  simp [hfree]

section Link

variable {before after : List DfaState} {s : DfaState} {start : StateId} {alphabet : Alphabet}
  (hp : Parts p (dfa.size + 1) same) (hdfa : dfa.WellFormed)
  (hindex : ∀ r < dfa.size + 1, index[r]? = some (p.number r))
  (hnumbers : ∀ b < p.length, numbers[b]? = some (live.findIdx? (·.number = b)))

include hp hdfa hindex hnumbers

/-- **One symbol.** The edge leads to the state of the block that the smallest member leads to. -/
theorem linkSymbol_eq (hleast : B.least ≤ dfa.size) {c : Char} {i : Nat}
    (hc : dfa.alphabet.toList[i]? = some c) (made : Dfa) :
    linkSymbol (TransitionTable.ofDfa dfa) index numbers (p.number dfa.size) B m made (c, i) =
      match newNumber live (p.number dfa.size) (p.number (dfa.rowNext B.least c)) with
      | some id => made.addEdge m c id
      | none => .ok made := by
  have hlt : B.least < (TransitionTable.ofDfa dfa).size := by
    rw [size_ofDfa]
    exact Nat.lt_succ_of_le hleast
  have hnext : dfa.rowNext B.least c < dfa.size + 1 := Nat.lt_succ_of_le (rowNext_le hdfa.edgesWithin)
  have htarget : (dfa.alphabet.toList.map (dfa.rowNext B.least)).toArray[i]? =
      some (dfa.rowNext B.least c) := by
    simp [hc]
  unfold linkSymbol newNumber
  simp only [TransitionTable.row_eq hlt, targetsOf_ofDfa hleast, lookup_eq htarget,
    lookup_eq (hindex _ hnext), lookup_eq (hnumbers _ (hp.number_lt hnext)), bind, Except.bind]
  split
  · rfl
  · rfl

theorem linkSymbol_append (hleast : B.least ≤ dfa.size) {c : Char} {i : Nat}
    (hc : dfa.alphabet.toList[i]? = some c) (hfree : s.edges.get? c = none) :
    linkSymbol (TransitionTable.ofDfa dfa) index numbers (p.number dfa.size) B before.length
        ⟨(before ++ s :: after).toArray, start, alphabet⟩ (c, i) =
      .ok ⟨(before ++ ⟨s.subset, putEdge live (p.number dfa.size) s.edges
        (c, p.number (dfa.rowNext B.least c)), s.isAccept⟩ :: after).toArray, start, alphabet⟩ := by
  rw [linkSymbol_eq hp hdfa hindex hnumbers hleast hc]
  unfold newNumber putEdge
  dsimp only
  by_cases hdead : p.number (dfa.rowNext B.least c) = p.number dfa.size
  · rw [if_pos hdead, if_pos hdead]
  · rw [if_neg hdead, if_neg hdead]
    cases live.findIdx? (·.number = p.number (dfa.rowNext B.least c)) with
    | none => rfl
    | some id => exact addEdge_append hfree

theorem linkSymbols_eq (hleast : B.least ≤ dfa.size) {entries : List (Char × Nat)}
    (hentries : ∀ e ∈ entries, dfa.alphabet.toList[e.2]? = some e.1)
    (hdistinct : (entries.map (·.1)).Nodup) (hfree : ∀ c ∈ entries.map (·.1), s.edges.get? c = none) :
    entries.foldlM (linkSymbol (TransitionTable.ofDfa dfa) index numbers (p.number dfa.size) B
        before.length) ⟨(before ++ s :: after).toArray, start, alphabet⟩ =
      .ok ⟨(before ++ ⟨s.subset, putEdges dfa p live B s.edges (entries.map (·.1)), s.isAccept⟩ ::
        after).toArray, start, alphabet⟩ := by
  induction entries generalizing s with
  | nil => rfl
  | cons e entries ih =>
    obtain ⟨c, i⟩ := e
    obtain ⟨hc, hentries⟩ := List.forall_mem_cons.1 hentries
    obtain ⟨hnew, hdistinct⟩ := List.nodup_cons.1 hdistinct
    obtain ⟨hfreec, hfree⟩ := List.forall_mem_cons.1 hfree
    rw [List.foldlM_cons, linkSymbol_append hp hdfa hindex hnumbers hleast hc hfreec]
    refine ih hentries hdistinct fun d hd => ?_
    have hdc : d ≠ c := fun heq => hnew (heq ▸ hd)
    rw [get?_putEdge, if_neg hdc]
    exact hfree d hd

theorem linkBlock_eq (hm : live[before.length]? = some B) (hB : B.number < p.length)
    (hdistinct : live.Pairwise fun B B' => B.number ≠ B'.number) (hleast : B.least ≤ dfa.size) :
    linkBlock (TransitionTable.ofDfa dfa) index numbers (p.number dfa.size)
        ⟨(before ++ bareState dfa B :: after).toArray, start, dfa.alphabet⟩ B =
      .ok ⟨(before ++ dfa.blockState p live B :: after).toArray, start, dfa.alphabet⟩ := by
  have hsource : live.findIdx? (·.number = B.number) = some before.length := by
    obtain ⟨hlt, rfl⟩ := List.getElem?_eq_some_iff.1 hm
    refine List.findIdx?_eq_some_iff_getElem.2 ⟨hlt, decide_eq_true rfl, fun j hj hsame => ?_⟩
    exact List.pairwise_iff_getElem.1 hdistinct j _ (Nat.lt_trans hj hlt) hlt hj (of_decide_eq_true hsame)
  unfold linkBlock
  rw [lookup_eq (hnumbers _ hB), hsource]
  have hmap : dfa.alphabet.toList.zipIdx.map (·.1) = dfa.alphabet.toList := List.zipIdx_map_fst 0 _
  have hnodup : dfa.alphabet.toList.Nodup :=
    dfa.alphabet.ascending.imp fun {c d} hlt (heq : c = d) => Nat.lt_irrefl _ (heq ▸ hlt)
  refine (linkSymbols_eq hp hdfa hindex hnumbers hleast (fun e he => ?_) ?_ fun c _ => rfl).trans ?_
  · exact List.mk_mem_zipIdx_iff_getElem?.1 he
  · exact hmap.symm ▸ hnodup
  · rw [hmap]
    rfl

theorem linkBlocks_eq (hled : ∀ B ∈ live, B.number < p.length ∧ B.least ≤ dfa.size)
    (hdistinct : live.Pairwise fun B B' => B.number ≠ B'.number) :
    live.foldlM (linkBlock (TransitionTable.ofDfa dfa) index numbers (p.number dfa.size))
        ⟨(live.map (bareState dfa)).toArray, 0, dfa.alphabet⟩ = .ok (dfa.blockAutomaton p live) := by
  have hloop : ∀ done rest, live = done ++ rest →
      rest.foldlM (linkBlock (TransitionTable.ofDfa dfa) index numbers (p.number dfa.size))
        ⟨(done.map (dfa.blockState p live) ++ rest.map (bareState dfa)).toArray, 0, dfa.alphabet⟩ =
          .ok (dfa.blockAutomaton p live) := by
    intro done rest hsplit
    induction rest generalizing done with
    | nil =>
      obtain rfl : live = done := hsplit.trans (List.append_nil done)
      rw [List.map_nil, List.append_nil]
      rfl
    | cons B rest ih =>
      obtain ⟨hB, hleast⟩ := hled B (hsplit ▸ List.mem_append_right done List.mem_cons_self)
      have hm : live[(done.map (dfa.blockState p live)).length]? = some B := by
        rw [hsplit]
        simp
      rw [List.foldlM_cons, List.map_cons, linkBlock_eq hp hdfa hindex hnumbers hm hB hdistinct hleast]
      have hnext := ih (done ++ [B]) (by rw [hsplit, List.append_assoc]; rfl)
      rw [List.map_append, List.append_assoc] at hnext
      exact hnext
  exact hloop [] live rfl

end Link

/-- **Minimal automaton.** It is the one made without arrays, so no check fails. -/
theorem minimal_eq_minimal (hdfa : dfa.WellFormed) : minimal dfa = dfa.minimal := by
  have hclosed := closed_ofDfa hdfa.edgesWithin
  obtain ⟨p, hp, hparts⟩ := stablePartition_ofDfa_returns hdfa.edgesWithin
  obtain ⟨blocks, live, hblocks, hlist, hlive, hminimal⟩ := minimal_eq hdfa hp hparts
  obtain ⟨passes, hpasses, hlast⟩ := exists_of_bind_eq_ok hp
  obtain ⟨last, hgetLast, hstable⟩ :=
    stableFrom_eq (TransitionTable.parts_initial _) hclosed hpasses
  rw [hgetLast] at hlast
  obtain rfl : last = p := Except.ok.inj hlast
  obtain ⟨index, hindex, hnumber⟩ := blockIndex_returns hparts
  have hled : ∀ B ∈ live, B.number < last.length ∧ B.least ≤ dfa.size := by
    intro B hB
    have hled := hlive.led B hB
    exact ⟨hled.number_lt, Nat.le_of_lt_succ ((hled.mem_iff hparts).1 hled.least_mem).1⟩
  obtain ⟨⟨_, numbers⟩, hadd, rfl, _, hnumbers⟩ := addBlocks_returns hled hlive.distinct
  have hstart : dfa.start < dfa.size + 1 := Nat.lt_succ_of_lt hdfa.start_lt
  have hfirst : (live.findIdx? (·.number = last.number dfa.start)).getD 0 = 0 := by
    obtain ⟨B, rest, rfl, hB, _⟩ := hlive.head
    simp [List.findIdx?_cons, hB]
  have hlink := linkBlocks_eq hparts hdfa hnumber hnumbers hled hlive.distinct
  rw [size_ofDfa] at hstable
  rw [hminimal]
  unfold minimal rebuild
  simp only [initialPartition_eq size_accept_ofDfa, hstable, size_ofDfa, hindex, Nat.add_sub_cancel,
    lookup_eq (hnumber _ (Nat.lt_succ_self _)), lookup_eq (hnumber _ hstart), hblocks, hlist, hadd,
    lookup_eq (hnumbers _ (hparts.number_lt hstart)), hfirst, hlink, bind, Except.bind]

end FiniteAutomata.Dfa.Indexed
