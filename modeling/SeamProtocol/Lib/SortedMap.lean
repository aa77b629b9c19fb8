import Mathlib.Tactic

/-! # Finite maps as strictly sorted entry lists

The executable model of an ordered map: the entry list is the iteration order, and equality of maps is
equality of lookups (`SortedMap.ext_get?`). Used with `α = Unit` it is an ordered set. -/

namespace Lib

open List Option

universe u v

structure SortedMap (κ : Type u) (α : Type v) [LT κ] where
  entries : List (κ × α)
  sorted : entries.Pairwise (fun p q => p.1 < q.1)

namespace SortedMap

variable {κ : Type u} {α : Type v}

instance [LT κ] [DecidableEq κ] [DecidableEq α] : DecidableEq (SortedMap κ α) := fun m m' =>
  decidable_of_iff (m.entries = m'.entries) (by cases m; cases m'; simp)

def empty [LT κ] : SortedMap κ α := ⟨[], List.Pairwise.nil⟩

instance [LT κ] : EmptyCollection (SortedMap κ α) := ⟨empty⟩

instance [LT κ] : Inhabited (SortedMap κ α) := ⟨empty⟩

def keys [LT κ] (m : SortedMap κ α) : List κ := m.entries.map Prod.fst

def size [LT κ] (m : SortedMap κ α) : Nat := m.entries.length

theorem eq_of_entries [LT κ] {m m' : SortedMap κ α} (h : m.entries = m'.entries) : m = m' := by
  cases m; cases m'; simpa using h

variable [LinearOrder κ]

def get? (m : SortedMap κ α) (k : κ) : Option α := m.entries.lookup k

theorem lookup_cons_eq_ite (k j : κ) (b : α) (l : List (κ × α)) :
    ((j, b) :: l).lookup k = if k = j then some b else l.lookup k := by
  by_cases h : k = j
  · simp [h]
  · rw [if_neg h, lookup_cons, beq_eq_false_iff_ne.mpr h]

def insertEntry (k : κ) (a : α) : List (κ × α) → List (κ × α)
  | [] => [(k, a)]
  | (k', a') :: rest =>
    if k < k' then (k, a) :: (k', a') :: rest
    else if k = k' then (k, a) :: rest
    else (k', a') :: insertEntry k a rest

variable {k : κ} {a : α} {l : List (κ × α)}

theorem mem_insertEntry {e : κ × α} : e ∈ insertEntry k a l → e = (k, a) ∨ e ∈ l := by
  induction l with
  | nil => simp [insertEntry]
  | cons hd tl ih =>
    rw [insertEntry]
    split_ifs <;> simp only [mem_cons] <;> grind

theorem pairwise_insertEntry (k : κ) (a : α) (h : l.Pairwise (fun p q => p.1 < q.1)) :
    (insertEntry k a l).Pairwise (fun p q => p.1 < q.1) := by
  induction l with
  | nil => simp [insertEntry]
  | cons hd tl ih =>
    rw [pairwise_cons] at h
    rw [insertEntry]
    split_ifs with h1 h2
    · refine pairwise_cons.mpr ⟨?_, pairwise_cons.mpr h⟩
      intro e he
      rcases mem_cons.mp he with rfl | he
      · exact h1
      · exact h1.trans (h.1 e he)
    · subst h2
      exact pairwise_cons.mpr ⟨h.1, h.2⟩
    · refine pairwise_cons.mpr ⟨?_, ih h.2⟩
      intro e he
      rcases mem_insertEntry he with rfl | he
      · exact lt_of_le_of_ne (not_lt.mp h1) (Ne.symm h2)
      · exact h.1 e he

def insert (m : SortedMap κ α) (k : κ) (a : α) : SortedMap κ α :=
  ⟨insertEntry k a m.entries, pairwise_insertEntry k a m.sorted⟩

def filterKeys (m : SortedMap κ α) (p : κ → Bool) : SortedMap κ α :=
  ⟨m.entries.filter (fun e => p e.1), m.sorted.filter _⟩

def retain (m : SortedMap κ α) (p : κ → α → Bool) : SortedMap κ α :=
  ⟨m.entries.filter (fun e => p e.1 e.2), m.sorted.filter _⟩

def erase (m : SortedMap κ α) (k : κ) : SortedMap κ α := m.filterKeys (fun k' => k' ≠ k)

def dropFirst (m : SortedMap κ α) (n : Nat) : SortedMap κ α :=
  ⟨m.entries.drop n, m.sorted.sublist (List.drop_sublist n _)⟩

def mapVal {β : Type*} (m : SortedMap κ α) (f : κ → α → β) : SortedMap κ β :=
  ⟨m.entries.map (fun e => (e.1, f e.1 e.2)), List.pairwise_map.mpr m.sorted⟩

/-! ## Lookup equations -/

@[simp] theorem get?_empty (k : κ) : (∅ : SortedMap κ α).get? k = none := rfl

theorem lookup_insertEntry (k k' : κ) (a : α) (l : List (κ × α)) :
    (insertEntry k a l).lookup k' = if k' = k then some a else l.lookup k' := by
  induction l with
  | nil => rw [insertEntry, lookup_cons_eq_ite]
  | cons hd tl ih =>
    obtain ⟨j, b⟩ := hd
    rw [insertEntry]
    by_cases h1 : k < j
    · rw [if_pos h1, lookup_cons_eq_ite]
    · by_cases h2 : k = j
      · subst h2
        rw [if_neg h1, if_pos rfl, lookup_cons_eq_ite, lookup_cons_eq_ite]
        by_cases hk : k' = k <;> simp [hk]
      · rw [if_neg h1, if_neg h2, lookup_cons_eq_ite, lookup_cons_eq_ite, ih]
        by_cases hk : k' = k
        · subst hk
          simp [h2]
        · simp [hk]

variable (m : SortedMap κ α)

@[grind =] theorem get?_insert (k k' : κ) (a : α) :
    (m.insert k a).get? k' = if k' = k then some a else m.get? k' :=
  lookup_insertEntry k k' a m.entries

@[simp] theorem get?_insert_self (k : κ) (a : α) : (m.insert k a).get? k = some a := by
  rw [get?_insert, if_pos rfl]

theorem get?_insert_of_ne {k' : κ} (a : α) (h : k' ≠ k) : (m.insert k a).get? k' = m.get? k' := by
  rw [get?_insert, if_neg h]

theorem lookup_filter (p : κ → Bool) (k : κ) (l : List (κ × α)) :
    (l.filter (fun e => p e.1)).lookup k = if p k then l.lookup k else none := by
  induction l with
  | nil => simp
  | cons hd tl ih =>
    obtain ⟨j, b⟩ := hd
    by_cases hj : k = j
    · subst hj
      by_cases hp : p k
      · simp [hp]
      · simpa [hp] using ih
    · by_cases hp : p j
      · simpa [lookup_cons_eq_ite, hp, hj] using ih
      · simpa [lookup_cons_eq_ite, hp, hj] using ih

@[grind =] theorem get?_filterKeys (p : κ → Bool) (k : κ) :
    (m.filterKeys p).get? k = if p k then m.get? k else none :=
  lookup_filter p k m.entries

@[grind =] theorem get?_erase (k k' : κ) :
    (m.erase k).get? k' = if k' = k then none else m.get? k' := by
  rw [erase, get?_filterKeys]
  by_cases h : k' = k <;> simp [h]

theorem get?_mapVal {β : Type*} (f : κ → α → β) (k : κ) :
    (m.mapVal f).get? k = (m.get? k).map (f k) := by
  obtain ⟨l, hl⟩ := m
  simp only [mapVal, get?]
  induction l with
  | nil => rfl
  | cons hd tl ih =>
    obtain ⟨j, b⟩ := hd
    by_cases hj : k = j
    · subst hj
      simp
    · simpa [lookup_cons_eq_ite, hj] using ih (pairwise_cons.mp hl).2

/-! ## Entries and lookups -/

theorem mem_entries_iff (k : κ) (a : α) : (k, a) ∈ m.entries ↔ m.get? k = some a := by
  obtain ⟨l, hl⟩ := m
  simp only [get?]
  induction l with
  | nil => simp
  | cons hd tl ih =>
    obtain ⟨j, b⟩ := hd
    rw [pairwise_cons] at hl
    by_cases hj : k = j
    · subst hj
      have hnot : (k, a) ∉ tl := fun h => lt_irrefl k (hl.1 (k, a) h)
      simp [hnot, eq_comm]
    · simpa [lookup_cons_eq_ite, hj] using ih hl.2

theorem get?_retain (p : κ → α → Bool) (k : κ) : (m.retain p).get? k = (m.get? k).filter (p k) := by
  ext a
  rw [← mem_entries_iff, retain, mem_filter, mem_entries_iff, filter_eq_some_iff]

theorem size_retain_le (p : κ → α → Bool) : (m.retain p).size ≤ m.size :=
  length_filter_le _ _

theorem size_insert_le (k : κ) (a : α) : (m.insert k a).size ≤ m.size + 1 := by
  obtain ⟨l, hl⟩ := m
  simp only [size, insert]
  induction l with
  | nil => simp [insertEntry]
  | cons hd tl ih =>
    have htl := ih (pairwise_cons.mp hl).2
    rw [insertEntry]
    split_ifs
    · exact le_refl _
    · exact Nat.le_succ _
    · exact Nat.succ_le_succ htl

variable {n : Nat}

theorem get?_of_get?_dropFirst {m : SortedMap κ α} (h : (m.dropFirst n).get? k = some a) :
    m.get? k = some a :=
  (m.mem_entries_iff k a).mp (mem_of_mem_drop ((mem_entries_iff _ k a).mpr h))

theorem mem_take_or_get?_dropFirst {m : SortedMap κ α} (n : Nat) (h : m.get? k = some a) :
    (k, a) ∈ m.entries.take n ∨ (m.dropFirst n).get? k = some a := by
  have hmem := (m.mem_entries_iff k a).mpr h
  rw [← take_append_drop n m.entries, mem_append] at hmem
  exact hmem.imp_right (mem_entries_iff (m.dropFirst n) k a).mp

theorem mem_keys_iff (k : κ) : k ∈ m.keys ↔ ∃ a, m.get? k = some a := by
  simp only [keys, List.mem_map, Prod.exists, exists_and_right, exists_eq_right]
  exact exists_congr fun a => m.mem_entries_iff k a

theorem pairwise_keys : m.keys.Pairwise (· < ·) :=
  pairwise_map.mpr m.sorted

theorem nodup_keys : m.keys.Nodup :=
  m.pairwise_keys.imp ne_of_lt

theorem ext_get? {m m' : SortedMap κ α} (h : ∀ k, m.get? k = m'.get? k) : m = m' := by
  have hmem : ∀ e, e ∈ m.entries ↔ e ∈ m'.entries := by
    rintro ⟨k, a⟩
    rw [mem_entries_iff, mem_entries_iff, h k]
  have nodup : ∀ n : SortedMap κ α, n.entries.Nodup := fun n =>
    n.sorted.imp fun hlt heq => absurd (congrArg Prod.fst heq) hlt.ne
  have hperm : m.entries.Perm m'.entries :=
    (perm_ext_iff_of_nodup (nodup m) (nodup m')).mpr hmem
  exact eq_of_entries (hperm.eq_of_pairwise
    (fun a b _ _ hab hba => absurd hab (not_lt.mpr hba.le)) m.sorted m'.sorted)

theorem insert_insert_self (k : κ) (a b : α) : (m.insert k a).insert k b = m.insert k b := by
  refine ext_get? fun k' => ?_
  rw [get?_insert, get?_insert, get?_insert]
  split_ifs <;> rfl

theorem insert_get?_self {m : SortedMap κ α} (h : m.get? k = some a) : m.insert k a = m := by
  apply ext_get?
  intro k'
  rw [get?_insert]
  split_ifs with heq
  · rw [heq, h]
  · rfl

theorem insertEntry_of_lt (h : ∀ e ∈ l, e.1 < k) : insertEntry k a l = l ++ [(k, a)] := by
  induction l with
  | nil => rfl
  | cons e l ih =>
    rw [forall_mem_cons] at h
    simp [insertEntry, not_lt.mpr h.1.le, h.1.ne', ih h.2]

theorem entries_foldl_insert {m : SortedMap κ α}
    (h : (m.entries ++ l).Pairwise (fun p q => p.1 < q.1)) :
    (l.foldl (fun m e => m.insert e.1 e.2) m).entries = m.entries ++ l := by
  induction l generalizing m with
  | nil => rw [foldl_nil, append_nil]
  | cons e l ih =>
    have hlast : (m.insert e.1 e.2).entries = m.entries ++ [e] :=
      insertEntry_of_lt fun e' he' => (pairwise_append.mp h).2.2 e' he' e mem_cons_self
    have hnext : ((m.insert e.1 e.2).entries ++ l).Pairwise fun p q => p.1 < q.1 := by
      simpa [hlast] using h
    simp [ih hnext, hlast]

theorem foldl_insert_entries : m.entries.foldl (fun m e => m.insert e.1 e.2) ∅ = m :=
  eq_of_entries (entries_foldl_insert m.sorted)

theorem keys_insert_of_get?_eq_some (k : κ) (a b : α)
    (h : m.get? k = some b) : (m.insert k a).keys = m.keys := by
  obtain ⟨l, hl⟩ := m
  simp only [keys, insert, get?] at *
  induction l with
  | nil => simp at h
  | cons hd tl ih =>
    obtain ⟨j, c⟩ := hd
    rw [pairwise_cons] at hl
    rw [insertEntry]
    by_cases hj : k = j
    · subst hj
      simp
    · have hmem : k ∈ tl.map Prod.fst := by
        have h' : tl.lookup k = some b := by simpa [lookup_cons_eq_ite, hj] using h
        exact mem_map.mpr
          ⟨(k, b), (mem_entries_iff (⟨tl, hl.2⟩ : SortedMap κ α) k b).mpr h', rfl⟩
      obtain ⟨e, he, hek⟩ := mem_map.mp hmem
      have hlt : j < k := hek ▸ hl.1 e he
      rw [if_neg (not_lt.mpr hlt.le), if_neg hj]
      simp only [map_cons, cons.injEq, true_and]
      exact ih hl.2 (by simpa [lookup_cons_eq_ite, hj] using h)

theorem length_keys : m.keys.length = m.size := length_map _

theorem size_insert_of_get?_eq_some (a : α) {b : α} (h : m.get? k = some b) :
    (m.insert k a).size = m.size := by
  rw [← length_keys, ← length_keys, keys_insert_of_get?_eq_some m k _ _ h]

theorem size_insert_of_get?_eq_none (a : α) (h : m.get? k = none) :
    (m.insert k a).size = m.size + 1 := by
  have hperm : (m.insert k a).keys.Perm (k :: m.keys) := by
    refine (perm_ext_iff_of_nodup (nodup_keys _) (nodup_cons.mpr ⟨?_, m.nodup_keys⟩)).mpr ?_
    · rw [mem_keys_iff, h]
      exact nofun
    · intro k'
      rw [mem_keys_iff, mem_cons, mem_keys_iff, get?_insert]
      split_ifs with heq <;> simp [heq]
  rw [← length_keys, ← length_keys, hperm.length_eq, length_cons]

theorem size_le_of_get? {β : Type*} {m : SortedMap κ α} {m' : SortedMap κ β}
    (h : ∀ k, m.get? k = none → m'.get? k = none) : m'.size ≤ m.size := by
  rw [← length_keys, ← length_keys]
  refine (subperm_of_subset m'.nodup_keys fun k hk => ?_).length_le
  rw [mem_keys_iff, ← ne_none_iff_exists'] at hk ⊢
  exact fun hnone => hk (h k hnone)

theorem nodup_entries : m.entries.Nodup := m.nodup_keys.of_map

theorem entries_insert_perm (k : κ) (a : α) :
    (m.insert k a).entries.Perm ((k, a) :: (m.erase k).entries) := by
  have hnot : (k, a) ∉ (m.erase k).entries := by
    rw [mem_entries_iff, get?_erase, if_pos rfl]
    simp
  refine (perm_ext_iff_of_nodup (nodup_entries _)
    (nodup_cons.mpr ⟨hnot, nodup_entries _⟩)).mpr ?_
  rintro ⟨k', b⟩
  rw [mem_cons, mem_entries_iff, mem_entries_iff, get?_insert, get?_erase]
  by_cases heq : k' = k
  · simp [heq, eq_comm]
  · simp [heq]

theorem keys_perm_filter_range {m : SortedMap Nat α} (hlt : ∀ i a, m.get? i = some a → i < n) :
    m.keys.Perm ((range n).filter fun i => (m.get? i).isSome) := by
  refine (perm_ext_iff_of_nodup m.nodup_keys (nodup_range.filter _)).mpr fun i => ?_
  rw [mem_keys_iff, mem_filter, mem_range, isSome_iff_exists]
  exact ⟨fun ⟨a, ha⟩ => ⟨hlt i a ha, a, ha⟩, fun h => h.2⟩

theorem size_add_length_missing {m : SortedMap Nat α} (hlt : ∀ i a, m.get? i = some a → i < n) :
    m.size + ((range n).filter fun i => (m.get? i).isNone).length = n := by
  have hsize : m.size = ((range n).filter fun i => (m.get? i).isSome).length := by
    rw [← (keys_perm_filter_range hlt).length_eq, keys, length_map]
    rfl
  have hsplit := length_eq_length_filter_add (fun i => (m.get? i).isSome) (l := range n)
  simp only [not_isSome] at hsplit
  rw [hsize, ← hsplit, length_range]

theorem le_size_add_length_missing (m : SortedMap Nat α) (n : Nat) :
    n ≤ m.size + ((range n).filter fun i => (m.get? i).isNone).length := by
  have hsize : ((range n).filter fun i => (m.get? i).isSome).length ≤ m.size := by
    rw [← length_keys]
    refine (subperm_of_subset (nodup_range.filter _) fun i hi => ?_).length_le
    rw [mem_keys_iff]
    exact isSome_iff_exists.mp (mem_filter.mp hi).2
  have hsplit := length_eq_length_filter_add (fun i => (m.get? i).isSome) (l := range n)
  simp only [not_isSome, length_range] at hsplit
  omega

theorem get?_isSome_of_size_eq {m : SortedMap Nat α} (hlt : ∀ i a, m.get? i = some a → i < n)
    (hsize : m.size = n) {i : Nat} (hi : i < n) : (m.get? i).isSome = true := by
  have hsum := size_add_length_missing hlt
  have hempty : (range n).filter (fun i => (m.get? i).isNone) = [] :=
    eq_nil_of_length_eq_zero (by omega)
  have hnot := filter_eq_nil_iff.mp hempty i (mem_range.mpr hi)
  rw [isNone_iff_eq_none] at hnot
  exact isSome_iff_ne_none.mpr hnot

end SortedMap

end Lib
