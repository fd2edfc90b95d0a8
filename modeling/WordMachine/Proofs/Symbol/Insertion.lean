import Mathlib.Data.List.Induction
import WordMachine.Proofs.Symbol.WellFormed

/-!
# Adding symbols is exact

A new symbol is compared only with the two on either side of its rank. In a well-formed table that
is as good as comparing it with all of them: `conflict?_eq_none_iff` and `conflict?_eq_some_iff` say
that the comparison finds the lowest of the symbols that share an address with the new one, if there
is any. A symbol that is let in keeps the table well formed (`WellFormed.inserted`), so every table
is well formed whatever was tried to be added to it (`add_exact`).
-/

namespace WordMachine

namespace SymbolTable

variable {table : SymbolTable} {name : String} {first last : Word} {e other : SymbolEntry}

/-! ### Conflicts -/

private theorem conflict?_eq (table : SymbolTable) (rank : Nat) (first last : Word) :
    table.conflict? rank first last =
      ((table.before? rank).filter (·.meets first last)).or
        ((table.entryAt? rank).filter (·.meets first last)) := by
  rw [conflict?, List.find?_append]
  cases table.before? rank <;> cases table.entryAt? rank <;>
    simp [Option.filter, List.find?_singleton]

namespace WellFormed

variable (h : table.WellFormed)
include h

private theorem meets_iff_shares (hle : first ≤ last) (hmem : e ∈ table.added) :
    e.meets first last = true ↔ e.Shares first last :=
  SymbolEntry.meets_iff_shares (h.ranges e hmem).1 hle

/-- Of the symbols from below, the one before the rank is asked. -/
private theorem before?_of_shares (hmem : e ∈ table.added) (hshares : e.Shares first last)
    (hfirst : e.first ≤ first) : table.before? (table.rank first) = some e := by
  obtain ⟨address, he, hge, -⟩ := hshares
  have hlast := (SymbolEntry.contains_iff.mp he).2
  exact h.before?_of_contains hmem
    (SymbolEntry.contains_iff.mpr ⟨hfirst, UInt16.le_trans hge hlast⟩)

/-- Of the symbols from above, the one at the rank is asked, and it is the lowest. -/
private theorem exists_entryAt?_rank (hle : first ≤ last) (hmem : e ∈ table.added)
    (hshares : e.Shares first last) (hfirst : first < e.first) :
    ∃ next, table.entryAt? (table.rank first) = some next ∧ next.meets first last = true ∧
      next.first ≤ e.first := by
  obtain ⟨k, hk⟩ := h.exists_place hmem
  have hge : table.rank first ≤ k := by
    by_contra hlt
    exact UInt16.not_le.mpr hfirst ((h.lt_rank_iff hk first).mp (Nat.lt_of_not_le hlt))
  have hlt := lt_of_entryAt? hk
  obtain ⟨next, -, hnext⟩ := h.exists_entryAt? (Nat.lt_of_le_of_lt hge hlt)
  have hmem' := mem_of_entryAt? hnext
  have hle' : next.first ≤ e.first := by
    rcases Nat.eq_or_lt_of_le hge with heq | hlt
    · rw [heq, hk] at hnext
      cases hnext
      exact UInt16.le_refl _
    · exact UInt16.le_of_lt (h.ascending hlt next hnext e hk)
  have habove : first < next.first := by
    refine UInt16.not_le.mp fun hbelow => ?_
    exact Nat.lt_irrefl _ ((h.lt_rank_iff hnext first).mpr hbelow)
  obtain ⟨address, he, -, haddress⟩ := hshares
  refine ⟨next, hnext, (h.meets_iff_shares hle hmem').mpr ?_, hle'⟩
  refine ⟨next.first, h.contains_first hmem', UInt16.le_of_lt habove, ?_⟩
  exact UInt16.le_trans hle' (UInt16.le_trans (SymbolEntry.contains_iff.mp he).1 haddress)

/-- What is found shares an address, and nothing that does starts below it. -/
private theorem lowest_of_conflict? (hle : first ≤ last)
    (hconflict : table.conflict? (table.rank first) first last = some other) :
    other ∈ table.added ∧ other.Shares first last ∧
      ∀ e ∈ table.added, e.Shares first last → other.first ≤ e.first := by
  rw [conflict?_eq, Option.or_eq_some_iff, Option.filter_eq_some_iff, Option.filter_eq_some_iff,
    Option.filter_eq_none_iff] at hconflict
  rcases hconflict with ⟨hbefore, hmeets⟩ | ⟨hnone, hnext, hmeets⟩
  · -- The one before the rank starts below everything that comes after the rank.
    obtain ⟨hmem, hfirst⟩ := h.first_le_of_before? hbefore
    refine ⟨hmem, (h.meets_iff_shares hle hmem).mp hmeets, fun e he hshares => ?_⟩
    rcases UInt16.le_total e.first first with hbelow | habove
    · have hbefore' := h.before?_of_shares he hshares hbelow
      rw [hbefore] at hbefore'
      cases hbefore'
      exact UInt16.le_refl _
    · exact UInt16.le_trans hfirst habove
  · -- The one at the rank is lowest, since nothing that starts below it shares an address.
    have hmem := mem_of_entryAt? hnext
    refine ⟨hmem, (h.meets_iff_shares hle hmem).mp hmeets, fun e he hshares => ?_⟩
    by_cases hbelow : e.first ≤ first
    · have hbefore := h.before?_of_shares he hshares hbelow
      exact absurd ((h.meets_iff_shares hle he).mpr hshares) (hnone e hbefore)
    · obtain ⟨next, hnext', -, hle'⟩ :=
        h.exists_entryAt?_rank hle he hshares (UInt16.not_le.mp hbelow)
      rw [hnext] at hnext'
      cases hnext'
      exact hle'

/-- Nothing is found only if no symbol shares an address. -/
theorem conflict?_eq_none_iff (hle : first ≤ last) :
    table.conflict? (table.rank first) first last = none ↔
      ∀ e ∈ table.added, ¬ e.Shares first last := by
  constructor
  · intro hnone e hmem hshares
    rw [conflict?_eq, Option.or_eq_none_iff, Option.filter_eq_none_iff,
      Option.filter_eq_none_iff] at hnone
    by_cases hbelow : e.first ≤ first
    · have hbefore := h.before?_of_shares hmem hshares hbelow
      exact hnone.1 e hbefore ((h.meets_iff_shares hle hmem).mpr hshares)
    · obtain ⟨next, hnext, hmeets, -⟩ :=
        h.exists_entryAt?_rank hle hmem hshares (UInt16.not_le.mp hbelow)
      exact hnone.2 next hnext hmeets
  · intro hnot
    cases hconflict : table.conflict? (table.rank first) first last with
    | none => rfl
    | some other =>
      obtain ⟨hmem, hshares, -⟩ := h.lowest_of_conflict? hle hconflict
      exact absurd hshares (hnot other hmem)

/-- What is found is the lowest symbol that shares an address. -/
theorem conflict?_eq_some_iff (hle : first ≤ last) :
    table.conflict? (table.rank first) first last = some other ↔
      other ∈ table.added ∧ other.Shares first last ∧
        ∀ e ∈ table.added, e.Shares first last → other.first ≤ e.first := by
  refine ⟨h.lowest_of_conflict? hle, ?_⟩
  rintro ⟨hmem, hshares, hlowest⟩
  cases hconflict : table.conflict? (table.rank first) first last with
  | none => exact absurd hshares ((h.conflict?_eq_none_iff hle).mp hconflict other hmem)
  | some found =>
    -- Both are lowest, so they start at the same address, which only one symbol holds.
    obtain ⟨hmem', hshares', hlowest'⟩ := h.lowest_of_conflict? hle hconflict
    have hfirst : found.first = other.first :=
      UInt16.le_antisymm (hlowest' other hmem hshares) (hlowest found hmem' hshares')
    have hother : other.contains found.first := hfirst ▸ h.contains_first hmem
    rw [h.eq_of_contains hmem' hmem (h.contains_first hmem') hother]

end WellFormed

/-! ### Growing tables -/

/-- The table with one more symbol, which comes at the rank of its first address. -/
def inserted (table : SymbolTable) (e : SymbolEntry) : SymbolTable :=
  ⟨table.added.push e, table.byFirst.insertIdxIfInBounds (table.rank e.first) table.added.size⟩

private theorem byFirst_inserted (table : SymbolTable) (e : SymbolEntry) :
    (table.inserted e).byFirst =
      table.byFirst.insertIdx (table.rank e.first) table.added.size
        (table.rank_le e.first) := by
  rw [inserted, Array.insertIdxIfInBounds, dif_pos (table.rank_le e.first)]

namespace WellFormed

variable (h : table.WellFormed)
include h

private theorem places_inserted (e : SymbolEntry) :
    (table.inserted e).byFirst.toList.Perm (List.range (table.inserted e).added.size) := by
  have hle : table.rank e.first ≤ table.byFirst.toList.length := table.rank_le e.first
  rw [byFirst_inserted, Array.toList_insertIdx, inserted, Array.size_push, List.range_succ]
  refine (List.perm_insertIdx _ _ hle).trans ?_
  refine (h.places.cons _).trans ?_
  exact (List.perm_append_singleton _ _).symm

/-- The symbols from the rank of the new one on move up by one. -/
private theorem entryAt?_inserted (e : SymbolEntry) (k : Nat) :
    (table.inserted e).entryAt? k =
      if k < table.rank e.first then table.entryAt? k
      else if k = table.rank e.first then some e else table.entryAt? (k - 1) := by
  have hold (k : Nat) : table.byFirst[k]?.bind ((table.added.push e)[·]?) = table.entryAt? k := by
    rw [entryAt?]
    cases hk : table.byFirst[k]? with
    | none => rfl
    | some place =>
      have hlt := h.place_lt (Array.mem_of_getElem? hk)
      rw [Option.bind_some, Option.bind_some, Array.getElem?_push, if_neg (Nat.ne_of_lt hlt)]
  have hrank := table.rank_le e.first
  rw [entryAt?, byFirst_inserted, Array.getElem?_insertIdx]
  rcases Nat.lt_trichotomy k (table.rank e.first) with hlt | rfl | hgt
  · rw [if_pos hlt, if_pos hlt]
    exact hold k
  · rw [if_neg (Nat.lt_irrefl _), if_neg (Nat.lt_irrefl _), if_pos rfl, if_pos rfl, if_pos hrank]
    exact Array.getElem?_push_size
  · have hnot : ¬ k < table.rank e.first := Nat.lt_asymm hgt
    rw [if_neg hnot, if_neg hnot, if_neg (Nat.ne_of_gt hgt), if_neg (Nat.ne_of_gt hgt)]
    exact hold (k - 1)

/-- A symbol that shares no address with the others keeps the order of first addresses. -/
private theorem ascending_inserted (hrange : e.first ≤ e.last)
    (hapart : ∀ e' ∈ table.added, ¬ e'.Shares e.first e.last) ⦃i j : Nat⦄ (hlt : i < j) :
    ∀ e₁ ∈ (table.inserted e).entryAt? i, ∀ e₂ ∈ (table.inserted e).entryAt? j,
      e₁.first < e₂.first := by
  intro e₁ hi e₂ hj
  rw [Option.mem_def, h.entryAt?_inserted] at hi hj
  -- The new symbol is at the rank, and each of the two places is below, at or above it.
  rcases Nat.lt_trichotomy i (table.rank e.first) with hbelow | rfl | habove
  · rw [if_pos hbelow] at hi
    rcases Nat.lt_trichotomy j (table.rank e.first) with hbelow' | rfl | habove'
    · rw [if_pos hbelow'] at hj
      exact h.ascending hlt e₁ hi e₂ hj
    · -- The symbol below starts elsewhere, since the new one would share its first address.
      rw [if_neg (Nat.lt_irrefl _), if_pos rfl] at hj
      cases hj
      have hle := (h.lt_rank_iff hi e.first).mp hbelow
      have hmem := mem_of_entryAt? hi
      refine UInt16.lt_of_le_of_ne hle fun heq => hapart e₁ hmem ?_
      exact ⟨e.first, heq ▸ h.contains_first hmem, UInt16.le_refl _, hrange⟩
    · rw [if_neg (Nat.lt_asymm habove'), if_neg (Nat.ne_of_gt habove')] at hj
      exact h.ascending (by omega) e₁ hi e₂ hj
  · rw [if_neg (Nat.lt_irrefl _), if_pos rfl] at hi
    rw [if_neg (Nat.lt_asymm hlt), if_neg (Nat.ne_of_gt hlt)] at hj
    cases hi
    refine UInt16.not_le.mp fun hle => ?_
    have hbelow := (h.lt_rank_iff hj e.first).mpr hle
    omega
  · rw [if_neg (Nat.lt_asymm habove), if_neg (Nat.ne_of_gt habove)] at hi
    rw [if_neg (by omega), if_neg (by omega)] at hj
    exact h.ascending (by omega) e₁ hi e₂ hj

/-- A symbol with a name of its own that lies in memory and shares no address with the others keeps
the table well formed. -/
theorem inserted (hname : ∀ e' ∈ table.added, e'.name ≠ e.name) (hrange : e.first ≤ e.last)
    (hmemory : e.last.toNat < memorySize)
    (hapart : ∀ e' ∈ table.added, ¬ e'.Shares e.first e.last) : (table.inserted e).WellFormed where
  names := by
    rw [SymbolTable.inserted, Array.toList_push, List.pairwise_append]
    refine ⟨h.names, List.pairwise_singleton _ _, fun e' hmem e'' hmem' => ?_⟩
    rw [List.mem_singleton.mp hmem']
    exact hname e' (Array.mem_toList_iff.mp hmem)
  ranges := by
    intro e' hmem
    rcases Array.mem_push.mp hmem with hmem | rfl
    · exact h.ranges e' hmem
    · exact ⟨hrange, hmemory⟩
  apart := by
    rw [SymbolTable.inserted, Array.toList_push, List.pairwise_append]
    refine ⟨h.apart, List.pairwise_singleton _ _, fun e' hmem e'' hmem' => ?_⟩
    rw [List.mem_singleton.mp hmem']
    exact hapart e' (Array.mem_toList_iff.mp hmem)
  places := h.places_inserted e
  ascending := h.ascending_inserted hrange hapart

end WellFormed

/-! ### Adding -/

/-- A symbol of the table has the name. -/
def Names (table : SymbolTable) (name : String) : Prop := ∃ e ∈ table.added, e.name = name

private theorem isSome_lookupName?_iff : (table.lookupName? name).isSome ↔ table.Names name := by
  simp [lookupName?, Names]

/-- The **answer** to an attempt to add a symbol, in the order in which reasons to refuse it are
looked for. Of the symbols that share an address with the new one the lowest is named. -/
inductive Answer (table : SymbolTable) (name : String) (first last : Word) :
    Except SymbolError SymbolTable → Prop
  | duplicateName (hname : table.Names name) :
    Answer table name first last (.error (.duplicateName name))
  | invertedRange (hname : ¬ table.Names name) (hlt : last < first) :
    Answer table name first last (.error (.invertedRange name first last))
  | addressOutOfRange (hname : ¬ table.Names name) (hle : first ≤ last)
    (hmemory : memorySize ≤ last.toNat) :
    Answer table name first last (.error (.addressOutOfRange name last))
  | overlap (hname : ¬ table.Names name) (hle : first ≤ last) (hmemory : last.toNat < memorySize)
    (other : SymbolEntry) (hmem : other ∈ table.added) (hshares : other.Shares first last)
    (hlowest : ∀ e ∈ table.added, e.Shares first last → other.first ≤ e.first) :
    Answer table name first last (.error (.overlap name other.name))
  | added (hname : ¬ table.Names name) (hle : first ≤ last) (hmemory : last.toNat < memorySize)
    (hapart : ∀ e ∈ table.added, ¬ e.Shares first last) :
    Answer table name first last (.ok (table.inserted ⟨name, first, last⟩))

namespace WellFormed

variable (h : table.WellFormed) {result : Except SymbolError SymbolTable}
include h

theorem add_eq_of_answer (hanswer : table.Answer name first last result) :
    table.add name first last = result := by
  rw [add]
  cases hanswer with
  | duplicateName hname => rw [if_pos (isSome_lookupName?_iff.mpr hname)]
  | invertedRange hname hlt => rw [if_neg (mt isSome_lookupName?_iff.mp hname), if_pos hlt]
  | addressOutOfRange hname hle hmemory =>
    rw [if_neg (mt isSome_lookupName?_iff.mp hname), if_neg (UInt16.not_lt.mpr hle),
      if_pos hmemory]
  | overlap hname hle hmemory other hmem hshares hlowest =>
    rw [if_neg (mt isSome_lookupName?_iff.mp hname), if_neg (UInt16.not_lt.mpr hle),
      if_neg (Nat.not_le_of_lt hmemory)]
    dsimp only
    rw [(h.conflict?_eq_some_iff hle).mpr ⟨hmem, hshares, hlowest⟩]
  | added hname hle hmemory hapart =>
    rw [if_neg (mt isSome_lookupName?_iff.mp hname), if_neg (UInt16.not_lt.mpr hle),
      if_neg (Nat.not_le_of_lt hmemory)]
    dsimp only
    rw [(h.conflict?_eq_none_iff hle).mpr hapart]
    rfl

/-- There is an answer to every attempt. -/
private theorem exists_answer (name : String) (first last : Word) :
    ∃ result, table.Answer name first last result := by
  by_cases hname : table.Names name
  · exact ⟨_, .duplicateName hname⟩
  by_cases hlt : last < first
  · exact ⟨_, .invertedRange hname hlt⟩
  have hle := UInt16.not_lt.mp hlt
  by_cases hmemory : last.toNat < memorySize
  · cases hconflict : table.conflict? (table.rank first) first last with
    | none => exact ⟨_, .added hname hle hmemory ((h.conflict?_eq_none_iff hle).mp hconflict)⟩
    | some other =>
      obtain ⟨hmem, hshares, hlowest⟩ := (h.conflict?_eq_some_iff hle).mp hconflict
      exact ⟨_, .overlap hname hle hmemory other hmem hshares hlowest⟩
  · exact ⟨_, .addressOutOfRange hname hle (Nat.le_of_not_lt hmemory)⟩

/-- Adding gives the one answer that there is. -/
theorem add_eq_iff :
    table.add name first last = result ↔ table.Answer name first last result := by
  refine ⟨?_, h.add_eq_of_answer⟩
  rintro rfl
  obtain ⟨result, hanswer⟩ := h.exists_answer name first last
  rwa [h.add_eq_of_answer hanswer]

/-- What adding makes of a well-formed table is well formed. -/
theorem of_add_eq_ok {grown : SymbolTable} (hadd : table.add name first last = .ok grown) :
    grown.WellFormed := by
  cases h.add_eq_iff.mp hadd with
  | added hname hle hmemory hapart =>
    exact h.inserted (fun e' hmem heq => hname ⟨e', hmem, heq⟩) hle hmemory hapart

end WellFormed

/-! ### Histories -/

/-- Tries to add a symbol. A table that refuses it stays as it is. -/
def attempt (table : SymbolTable) (e : SymbolEntry) : SymbolTable :=
  match table.add e.name e.first e.last with
  | .ok grown => grown
  | .error _ => table

/-- The table that is left when symbols were tried one after another. -/
def ofAttempts (attempts : List SymbolEntry) : SymbolTable := attempts.foldl attempt empty

theorem ofAttempts_concat (attempts : List SymbolEntry) (e : SymbolEntry) :
    ofAttempts (attempts ++ [e]) = (ofAttempts attempts).attempt e := by
  rw [ofAttempts, List.foldl_append]
  rfl

private theorem WellFormed.attempt (h : table.WellFormed) (e : SymbolEntry) :
    (table.attempt e).WellFormed := by
  rw [SymbolTable.attempt]
  split
  · next hadd => exact h.of_add_eq_ok hadd
  · exact h

/-- Every table that is built by adding symbols is well formed. -/
theorem wellFormed_ofAttempts (attempts : List SymbolEntry) : (ofAttempts attempts).WellFormed := by
  induction attempts using List.reverseRecOn with
  | nil => exact wellFormed_empty
  | append_singleton attempts e ih => exact ofAttempts_concat attempts e ▸ ih.attempt e

/-- **Adding is exact.** Whatever was tried before, the table is well formed, and a further attempt
has the one answer that a comparison with all symbols of the table would give. It is let in if and
only if its name is not taken, its range is in memory and it shares no address with any symbol. An
attempt that is refused leaves the table as it was. -/
theorem add_exact (attempts : List SymbolEntry) (name : String) (first last : Word) :
    let table := ofAttempts attempts
    table.WellFormed ∧
      (∀ result, table.add name first last = result ↔ table.Answer name first last result) ∧
      ((∃ grown, table.add name first last = .ok grown) ↔
        ¬ table.Names name ∧ first ≤ last ∧ last.toNat < memorySize ∧
          ∀ e ∈ table.added, ¬ e.Shares first last) ∧
      ∀ error, table.add name first last = .error error →
        ofAttempts (attempts ++ [⟨name, first, last⟩]) = table := by
  intro table
  have h : table.WellFormed := wellFormed_ofAttempts attempts
  refine ⟨h, fun result => h.add_eq_iff, ⟨?_, ?_⟩, fun error hadd => ?_⟩
  · rintro ⟨grown, hadd⟩
    cases h.add_eq_iff.mp hadd with
    | added hname hle hmemory hapart => exact ⟨hname, hle, hmemory, hapart⟩
  · rintro ⟨hname, hle, hmemory, hapart⟩
    exact ⟨_, h.add_eq_of_answer (.added hname hle hmemory hapart)⟩
  · rw [ofAttempts_concat, attempt, hadd]

/-- Neighbours may touch, but not share their last and first address. -/
theorem add_exact_neighbours :
    (ofAttempts [⟨"data", 10, 20⟩]).add "code" 20 30 = .error (.overlap "code" "data") ∧
      ofAttempts [⟨"data", 10, 20⟩, ⟨"code", 20, 30⟩] = ofAttempts [⟨"data", 10, 20⟩] ∧
      ((ofAttempts [⟨"data", 10, 20⟩]).add "code" 21 30).isOk := by
  have hrefused : (ofAttempts [⟨"data", 10, 20⟩]).add "code" 20 30 =
      .error (.overlap "code" "data") := by decide +kernel
  obtain ⟨-, -, -, hunchanged⟩ := add_exact [⟨"data", 10, 20⟩] "code" 20 30
  exact ⟨hrefused, hunchanged _ hrefused, by decide +kernel⟩

end SymbolTable

end WordMachine
