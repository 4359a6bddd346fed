import Mathlib.Data.List.AList
import Mathlib.Data.List.Perm.Basic
import Mathlib.Tactic

/-! Finite maps with a decidable key, over Mathlib's association lists.  The order of
the entries carries no meaning: every statement below goes through `get`. -/

universe u v

namespace DurableQueue

def HashMap (κ : Type u) (ν : Type v) := AList (fun _ : κ => ν)

namespace HashMap

variable {κ : Type u} {ν : Type v}

def empty : HashMap κ ν := (∅ : AList (fun _ : κ => ν))

def keys (m : HashMap κ ν) : List κ := AList.keys m

def values (m : HashMap κ ν) : List ν := (AList.entries m).map Sigma.snd

/-- The entries as pairs.  A program that iterates over a map sees them in some order. -/
def toList (m : HashMap κ ν) : List (κ × ν) := (AList.entries m).map (fun e => (e.1, e.2))

def mapValues (f : ν → ν) (m : HashMap κ ν) : HashMap κ ν where
  entries := (AList.entries m).map (fun e => ⟨e.1, f e.2⟩)
  nodupKeys := by
    have h : ((AList.entries m).map Sigma.fst).Nodup := AList.keys_nodup m
    simpa [List.NodupKeys, List.keys, Function.comp_def] using h

theorem keys_nodup (m : HashMap κ ν) : m.keys.Nodup := AList.keys_nodup m

theorem nodup_keys_toList (m : HashMap κ ν) : (m.toList.map Prod.fst).Nodup := by
  have h : ((AList.entries m).map Sigma.fst).Nodup := AList.keys_nodup m
  simpa [toList, Function.comp_def] using h

@[simp] theorem keys_empty : (empty : HashMap κ ν).keys = [] := rfl

@[simp] theorem values_empty : (empty : HashMap κ ν).values = [] := rfl

def count (p : ν → Bool) (m : HashMap κ ν) : Nat := m.values.countP p

def keysWith (p : ν → Bool) (m : HashMap κ ν) : List κ :=
  ((AList.entries m).filter (fun e => p e.2)).map Sigma.fst

theorem keysWith_nodup (p : ν → Bool) (m : HashMap κ ν) : (m.keysWith p).Nodup :=
  (keys_nodup m).sublist (List.filter_sublist.map _)

theorem count_eq_length (p : ν → Bool) (m : HashMap κ ν) :
    m.count p = (m.keysWith p).length := by
  rw [count, values, keysWith, List.length_map, List.countP_map, List.countP_eq_length_filter]
  rfl

@[simp] theorem count_empty (p : ν → Bool) : (empty : HashMap κ ν).count p = 0 := rfl

variable [DecidableEq κ]

def get (m : HashMap κ ν) (k : κ) : Option ν := AList.lookup k m

def insert (m : HashMap κ ν) (k : κ) (v : ν) : HashMap κ ν := AList.insert k v m

def erase (m : HashMap κ ν) (k : κ) : HashMap κ ν := AList.erase k m

def modify (m : HashMap κ ν) (k : κ) (f : ν → ν) : HashMap κ ν :=
  match m.get k with
  | some v => m.insert k (f v)
  | none => m

def ofList (l : List (κ × ν)) : HashMap κ ν := l.foldl (fun m p => m.insert p.1 p.2) empty

/-- `entry(k).or_default()`, updated by `f`. -/
def upsert (m : HashMap κ ν) (k : κ) (default : ν) (f : ν → ν) : HashMap κ ν :=
  m.insert k (f ((m.get k).getD default))

@[simp] theorem get_empty (k : κ) : (empty : HashMap κ ν).get k = none :=
  AList.lookup_empty k

theorem get_insert (m : HashMap κ ν) (k k' : κ) (v : ν) :
    (m.insert k v).get k' = if k' = k then some v else m.get k' := by
  by_cases h : k' = k
  · subst h
    simpa [get, insert] using AList.lookup_insert (β := fun _ : κ => ν) m
  · simpa [get, insert, h] using AList.lookup_insert_ne (β := fun _ : κ => ν) (s := m) h

@[simp] theorem get_insert_self (m : HashMap κ ν) (k : κ) (v : ν) :
    (m.insert k v).get k = some v := by
  simp [get_insert]

theorem get_erase (m : HashMap κ ν) (k k' : κ) :
    (m.erase k).get k' = if k' = k then none else m.get k' := by
  by_cases h : k' = k
  · subst h
    simpa [get, erase] using AList.lookup_erase (β := fun _ : κ => ν) k' m
  · simpa [get, erase, h] using AList.lookup_erase_ne (β := fun _ : κ => ν) (s := m) h

theorem erase_of_none {m : HashMap κ ν} {k : κ} (h : m.get k = none) : m.erase k = m :=
  AList.ext (List.kerase_of_notMem_keys (AList.lookup_eq_none.mp h))

@[simp] theorem get_erase_self (m : HashMap κ ν) (k : κ) : (m.erase k).get k = none := by
  simp [get_erase]

theorem get_modify (m : HashMap κ ν) (k k' : κ) (f : ν → ν) :
    (m.modify k f).get k' = if k' = k then (m.get k).map f else m.get k' := by
  unfold modify
  cases h : m.get k with
  | none =>
    by_cases hk : k' = k
    · simp [hk, h]
    · simp [hk]
  | some v => simp [get_insert]

@[simp] theorem isSome_get_modify (m : HashMap κ ν) (k k' : κ) (f : ν → ν) :
    ((m.modify k f).get k').isSome = (m.get k').isSome := by
  rw [get_modify]
  split
  · rename_i h
    simp [h]
  · rfl

theorem modify_modify (m : HashMap κ ν) (k : κ) (f g : ν → ν) :
    (m.modify k f).modify k g = m.modify k (fun v => g (f v)) := by
  cases h : m.get k with
  | none => simp only [modify, h]
  | some v =>
    have hmod : ∀ f : ν → ν, m.modify k f = m.insert k (f v) := fun f => by simp only [modify, h]
    rw [hmod, hmod, modify, get_insert_self]
    exact AList.insert_insert m

theorem mem_keys {m : HashMap κ ν} {k : κ} : k ∈ m.keys ↔ ∃ v, m.get k = some v := by
  have h := AList.lookup_isSome (β := fun _ : κ => ν) (a := k) (s := m)
  rw [Option.isSome_iff_exists] at h
  exact h.symm

theorem mem_entries {m : HashMap κ ν} {k : κ} {v : ν} :
    (⟨k, v⟩ : Sigma fun _ : κ => ν) ∈ AList.entries m ↔ m.get k = some v :=
  (AList.mem_lookup_iff (β := fun _ : κ => ν)).symm

@[simp] theorem mem_toList {m : HashMap κ ν} {k : κ} {v : ν} :
    (k, v) ∈ m.toList ↔ m.get k = some v := by
  rw [← mem_entries]
  constructor
  · intro h
    obtain ⟨⟨k', v'⟩, he, heq⟩ := List.mem_map.mp h
    cases heq
    exact he
  · exact fun h => List.mem_map.mpr ⟨_, h, rfl⟩

theorem filter_key_toList (m : HashMap κ ν) (k : κ) :
    m.toList.filter (fun p => p.1 = k) = ((m.get k).map (Prod.mk k)).toList := by
  have hmem : ∀ p, p ∈ m.toList.filter (fun p => p.1 = k) ↔ m.get k = some p.2 ∧ p.1 = k := by
    rintro ⟨k', v⟩
    rw [List.mem_filter, mem_toList, decide_eq_true_iff]
    constructor
    · rintro ⟨h, rfl⟩
      exact ⟨h, rfl⟩
    · rintro ⟨h, rfl⟩
      exact ⟨h, rfl⟩
  cases h : m.get k with
  | none =>
    refine List.eq_nil_iff_forall_not_mem.mpr (fun p hp => ?_)
    have := ((hmem p).mp hp).1
    rw [h] at this
    cases this
  | some v =>
    have hnodup : (m.toList.filter (fun p => p.1 = k)).Nodup :=
      (List.Nodup.of_map _ m.nodup_keys_toList).filter _
    refine List.perm_singleton.mp ?_
    rw [List.perm_ext_iff_of_nodup hnodup (List.nodup_singleton _)]
    rintro ⟨k', w⟩
    rw [hmem, h, List.mem_singleton, Prod.mk.injEq, Option.some.injEq]
    constructor
    · rintro ⟨rfl, rfl⟩
      exact ⟨rfl, rfl⟩
    · rintro ⟨rfl, rfl⟩
      exact ⟨rfl, rfl⟩

theorem get_mapValues (f : ν → ν) (m : HashMap κ ν) (k : κ) :
    (m.mapValues f).get k = (m.get k).map f := by
  cases h : m.get k with
  | some v =>
    rw [Option.map_some, ← mem_entries]
    exact List.mem_map.mpr ⟨⟨k, v⟩, mem_entries.mpr h, rfl⟩
  | none =>
    cases h' : (m.mapValues f).get k with
    | none => rfl
    | some w =>
      obtain ⟨⟨k', v⟩, he, heq⟩ := List.mem_map.mp (mem_entries.mpr h')
      cases heq
      rw [mem_entries.mp he] at h
      cases h

theorem mem_values {m : HashMap κ ν} {v : ν} : v ∈ m.values ↔ ∃ k, m.get k = some v := by
  constructor
  · intro h
    obtain ⟨⟨k, w⟩, he, rfl⟩ := List.mem_map.mp h
    exact ⟨k, mem_entries.mp he⟩
  · rintro ⟨k, h⟩
    exact List.mem_map.mpr ⟨⟨k, v⟩, mem_entries.mpr h, rfl⟩

theorem mem_keysWith {p : ν → Bool} {m : HashMap κ ν} {k : κ} :
    k ∈ m.keysWith p ↔ ∃ v, m.get k = some v ∧ p v := by
  constructor
  · intro h
    obtain ⟨⟨k', v⟩, he, rfl⟩ := List.mem_map.mp h
    obtain ⟨he, hp⟩ := List.mem_filter.mp he
    exact ⟨v, mem_entries.mp he, hp⟩
  · rintro ⟨v, h, hp⟩
    exact List.mem_map.mpr ⟨⟨k, v⟩, List.mem_filter.mpr ⟨mem_entries.mpr h, hp⟩, rfl⟩

theorem count_congr {ν' : Type v} {p : ν → Bool} {q : ν' → Bool} {m : HashMap κ ν}
    {m' : HashMap κ ν'}
    (h : ∀ k, (∃ v, m.get k = some v ∧ p v) ↔ ∃ v, m'.get k = some v ∧ q v) :
    m.count p = m'.count q := by
  rw [count_eq_length, count_eq_length]
  apply List.Perm.length_eq
  rw [List.perm_ext_iff_of_nodup (keysWith_nodup p m) (keysWith_nodup q m')]
  intro k
  rw [mem_keysWith, mem_keysWith]
  exact h k

theorem count_insert_new (p : ν → Bool) (m : HashMap κ ν) (k : κ) (v : ν)
    (h : m.get k = none) : (m.insert k v).count p = m.count p + if p v then 1 else 0 := by
  have hk : k ∉ (show AList (fun _ : κ => ν) from m) :=
    AList.lookup_eq_none.mp h
  have he : AList.entries (m.insert k v) = ⟨k, v⟩ :: AList.entries m :=
    AList.entries_insert_of_notMem hk
  simp only [count, values, he, List.map_cons, List.countP_cons]

theorem count_erase (p : ν → Bool) (m : HashMap κ ν) (k : κ) (v : ν)
    (h : m.get k = some v) : (m.erase k).count p + (if p v then 1 else 0) = m.count p := by
  have hnone : (m.erase k).get k = none := get_erase_self m k
  rw [← count_insert_new p (m.erase k) k v hnone]
  apply count_congr
  intro k'
  rw [get_insert, get_erase]
  by_cases hk : k' = k
  · simp [hk, h]
  · simp [hk]

theorem count_erase_none (p : ν → Bool) (m : HashMap κ ν) (k : κ) (h : m.get k = none) :
    (m.erase k).count p = m.count p := by
  apply count_congr
  intro k'
  rw [get_erase]
  by_cases hk : k' = k
  · simp [hk, h]
  · simp [hk]

theorem count_insert_old (p : ν → Bool) (m : HashMap κ ν) (k : κ) (v w : ν)
    (h : m.get k = some v) :
    (m.insert k w).count p + (if p v then 1 else 0) = m.count p + if p w then 1 else 0 := by
  have hw : (m.insert k w).count p = ((m.erase k).insert k w).count p := by
    apply count_congr
    intro k'
    rw [get_insert, get_insert, get_erase]
    by_cases hk : k' = k <;> simp [hk]
  rw [hw, count_insert_new p (m.erase k) k w (get_erase_self m k), ← count_erase p m k v h]
  omega

theorem length_eq_count {p : ν → Bool} {m : HashMap κ ν} {l : List κ} (hl : l.Nodup)
    (h : ∀ k, k ∈ l ↔ ∃ v, m.get k = some v ∧ p v) : l.length = m.count p := by
  rw [count_eq_length]
  apply List.Perm.length_eq
  rw [List.perm_ext_iff_of_nodup hl (keysWith_nodup p m)]
  intro k
  rw [h, mem_keysWith]

theorem sum_values_eq {m : HashMap κ ν} {f : ν → Nat} {k : κ} {v : ν} (hget : m.get k = some v)
    (h : ∀ k' w, k' ≠ k → m.get k' = some w → f w = 0) : (m.values.map f).sum = f v := by
  classical
  have hmem : (k, v) ∈ m.toList := mem_toList.mpr hget
  have hvalues : m.values.map f = m.toList.map (fun p => f p.2) := by
    simp [values, toList, Function.comp_def]
  have hperm := (List.perm_cons_erase hmem).map (fun p : κ × ν => f p.2)
  have hrest : ((m.toList.erase (k, v)).map (fun p => f p.2)).sum = 0 := by
    apply List.sum_eq_zero
    intro n hn
    obtain ⟨⟨k', w⟩, hp, rfl⟩ := List.mem_map.mp hn
    have hp' := (List.Nodup.mem_erase_iff (List.Nodup.of_map _ m.nodup_keys_toList)).mp hp
    refine h k' w ?_ (mem_toList.mp hp'.2)
    rintro rfl
    exact hp'.1 (List.inj_on_of_nodup_map m.nodup_keys_toList hp'.2 hmem rfl)
  rw [hvalues, hperm.sum_eq, List.map_cons, List.sum_cons, hrest, Nat.add_zero]

theorem values_perm {m : HashMap κ ν} {k : κ} {v : ν} (h : m.get k = some v) :
    m.values.Perm (v :: (m.erase k).values) := by
  have hk : k ∈ (AList.entries m).keys := mem_keys.mpr ⟨v, h⟩
  obtain ⟨w, l₁, l₂, _, heq, herase⟩ := List.exists_of_kerase hk
  have hw : w = v := by
    have hmem : (⟨k, w⟩ : Sigma fun _ : κ => ν) ∈ AList.entries m := by simp [heq]
    rw [mem_entries, h] at hmem
    exact (Option.some.inj hmem).symm
  have hrest : (m.erase k).values = (l₁ ++ l₂).map Sigma.snd := congrArg _ herase
  rw [hrest, values, heq, hw]
  simp

theorem sum_values_modify {m : HashMap κ ν} {k : κ} {v : ν} (h : m.get k = some v)
    (f : ν → ν) (g : ν → Nat) :
    ((m.modify k f).values.map g).sum + g v = (m.values.map g).sum + g (f v) := by
  have hmod : (m.modify k f).values = f v :: (m.erase k).values := by
    simp only [modify, h]
    rfl
  rw [hmod, ((values_perm h).map g).sum_eq, List.map_cons, List.map_cons, List.sum_cons,
    List.sum_cons]
  omega

theorem sum_values_eq_zero {m : HashMap κ ν} {f : ν → Nat}
    (h : ∀ k v, m.get k = some v → f v = 0) : (m.values.map f).sum = 0 := by
  apply List.sum_eq_zero
  intro n hn
  obtain ⟨v, hv, rfl⟩ := List.mem_map.mp hn
  obtain ⟨k, hk⟩ := mem_values.mp hv
  exact h k v hk

/-! ## Loops that build or update a map -/

@[simp] theorem ofList_snoc (l : List (κ × ν)) (p : κ × ν) :
    ofList (l ++ [p]) = (ofList l).insert p.1 p.2 := by
  simp [ofList]

theorem isSome_get_ofList (l : List (κ × ν)) (k : κ) :
    ((ofList l).get k).isSome ↔ k ∈ l.map Prod.fst := by
  induction l using List.reverseRecOn with
  | nil => simp [ofList]
  | append_singleton l p ih =>
    rw [ofList_snoc, get_insert, List.map_append, List.mem_append, ← ih]
    by_cases h : k = p.1 <;> simp [h]

theorem mem_of_get_ofList {l : List (κ × ν)} {k : κ} {v : ν} (h : (ofList l).get k = some v) :
    (k, v) ∈ l := by
  induction l using List.reverseRecOn with
  | nil => simp [ofList] at h
  | append_singleton l p ih =>
    rw [ofList_snoc, get_insert] at h
    split at h
    · rename_i heq
      cases h
      simp [heq]
    · exact List.mem_append_left _ (ih h)

theorem get_ofList {l : List (κ × ν)} (hl : (l.map Prod.fst).Nodup) {k : κ} {v : ν} :
    (ofList l).get k = some v ↔ (k, v) ∈ l := by
  refine ⟨mem_of_get_ofList, fun hmem => ?_⟩
  obtain ⟨w, hw⟩ := Option.isSome_iff_exists.mp
    ((isSome_get_ofList l k).mpr (List.mem_map.mpr ⟨_, hmem, rfl⟩))
  rw [hw, (Prod.mk.inj (List.inj_on_of_nodup_map hl (mem_of_get_ofList hw) hmem rfl)).2]

theorem get_ofList_map {α : Type*} {ν' : Type v} (key : α → κ) (val : α → ν) (f : ν → ν')
    (l : List α) (k : κ) :
    (ofList (l.map fun a => (key a, f (val a)))).get k =
      ((ofList (l.map fun a => (key a, val a))).get k).map f := by
  induction l using List.reverseRecOn with
  | nil => rfl
  | append_singleton l a ih =>
    rw [List.map_append, List.map_append, List.map_singleton, List.map_singleton, ofList_snoc,
      ofList_snoc, get_insert, get_insert, ih]
    split <;> rfl

section Loops

variable {β γ : Type*} (key : β → κ) (f : β → ν → ν)

theorem get_foldl_modify_of_notMem {l : List β} {k : κ} (hk : k ∉ l.map key)
    (m : HashMap κ ν) : (l.foldl (fun m b => m.modify (key b) (f b)) m).get k = m.get k := by
  induction l generalizing m with
  | nil => rfl
  | cons b l ih =>
    rw [List.map_cons, List.mem_cons, not_or] at hk
    rw [List.foldl_cons, ih hk.2, get_modify, if_neg hk.1]

theorem get_foldl_modify_of_mem {l : List β} (hl : (l.map key).Nodup) {b : β} (hb : b ∈ l)
    (m : HashMap κ ν) :
    (l.foldl (fun m b => m.modify (key b) (f b)) m).get (key b) = (m.get (key b)).map (f b) := by
  induction l generalizing m with
  | nil => cases hb
  | cons b' l ih =>
    rw [List.map_cons, List.nodup_cons] at hl
    rw [List.foldl_cons]
    rcases List.mem_cons.mp hb with rfl | hb
    · rw [get_foldl_modify_of_notMem key f hl.1, get_modify, if_pos rfl]
    · have hne : key b ≠ key b' := fun h => hl.1 (h ▸ List.mem_map.mpr ⟨b, hb, rfl⟩)
      rw [ih hl.2 hb, get_modify, if_neg hne]

theorem map_get_foldl_modify {g : ν → γ} (hg : ∀ b v, g (f b v) = g v) (l : List β)
    (m : HashMap κ ν) (k : κ) :
    ((l.foldl (fun m b => m.modify (key b) (f b)) m).get k).map g = (m.get k).map g := by
  induction l generalizing m with
  | nil => rfl
  | cons b l ih =>
    rw [List.foldl_cons, ih, get_modify]
    split
    · rename_i h
      simp [h, hg, Function.comp_def]
    · rfl

theorem map_get_foldl_modify_add {g : ν → Nat} {w : β → Nat}
    (hg : ∀ b v, g (f b v) = g v + w b) (l : List β) (m : HashMap κ ν) (k : κ) :
    ((l.foldl (fun m b => m.modify (key b) (f b)) m).get k).map g =
      (m.get k).map fun v => g v + ((l.filter fun b => key b = k).map w).sum := by
  induction l generalizing m with
  | nil => simp
  | cons b l ih =>
    rw [List.foldl_cons, ih, get_modify, List.filter_cons]
    by_cases h : key b = k
    · simp [h, hg, Function.comp_def, Nat.add_assoc]
    · simp [h, Ne.symm h]

end Loops

theorem getD_foldl_upsert (l : List (κ × Nat)) (m : HashMap κ Nat) (k : κ) :
    ((l.foldl (fun m p => m.upsert p.1 0 (· + p.2)) m).get k).getD 0 =
      (m.get k).getD 0 + ((l.filter (fun p => p.1 = k)).map Prod.snd).sum := by
  induction l generalizing m with
  | nil => simp
  | cons p l ih =>
    rw [List.foldl_cons, ih, upsert, get_insert, List.filter_cons]
    by_cases h : k = p.1
    · simp [h, Nat.add_assoc]
    · simp [h, Ne.symm h]

end HashMap

end DurableQueue
