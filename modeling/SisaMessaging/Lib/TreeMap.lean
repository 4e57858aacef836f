/-
  Ordered maps filled from lists: what looking a name up gives after a list of entries was set.

  `setAll` sets the entries that have a value. Its lookup lemma needs the names to be distinct,
  which they are in the list of a map's entries (`nodup_toList`). Of a list with repeated names
  `ofList` keeps the last entries, so the map depends on the list's order (`exists_perm_ofList`).
-/
import Mathlib.Data.List.Induction
import Mathlib.Tactic.Common

namespace SisaMessaging.Lib.TreeMap

open Std (ExtTreeMap TransCmp LawfulEqCmp)

variable {α β : Type} {cmp : α → α → Ordering} [TransCmp cmp] [LawfulEqCmp cmp]

theorem nodup_toList (t : ExtTreeMap α β cmp) : (t.toList.map (·.1)).Nodup := by
  rw [List.Nodup, List.pairwise_map]
  refine t.distinct_keys_toList.imp fun {a b} h he => h ?_
  rw [he]
  exact Std.ReflCmp.compare_self

/-! ## Maps of lists in any order -/

omit [LawfulEqCmp cmp] in
/-- The later entries win. -/
theorem getElem?_ofList_append (first rest : List (α × β)) (k : α) :
    (ExtTreeMap.ofList (first ++ rest) cmp)[k]? =
      (ExtTreeMap.ofList rest cmp)[k]?.or (ExtTreeMap.ofList first cmp)[k]? := by
  have hfold (m : ExtTreeMap α β cmp) : (rest.foldl (fun m (k, v) => m.insert k v) m)[k]? =
      (rest.foldl (fun m (k, v) => m.insert k v) (∅ : ExtTreeMap α β cmp))[k]?.or m[k]? := by
    induction rest using List.reverseRecOn with
    | nil => simp
    | append_singleton rest entry ih =>
      simp only [List.foldl_append, List.foldl_cons, List.foldl_nil, ExtTreeMap.getElem?_insert, ih]
      split <;> simp
  rw [ExtTreeMap.ofList_eq_foldl, ExtTreeMap.ofList_eq_foldl, ExtTreeMap.ofList_eq_foldl,
    List.foldl_append, hfold]

theorem getElem?_ofList_eq_some {entries : List (α × β)} {k : α} {v : β}
    (h : (ExtTreeMap.ofList entries cmp)[k]? = some v) : (k, v) ∈ entries := by
  induction entries using List.reverseRecOn with
  | nil => simp at h
  | append_singleton entries entry ih =>
    rw [getElem?_ofList_append, ExtTreeMap.ofList_singleton, ExtTreeMap.getElem?_insert] at h
    rw [List.mem_append, List.mem_singleton]
    split at h
    · rename_i hk
      rw [Option.some_or, Option.some.injEq] at h
      exact Or.inr (Prod.ext (LawfulEqCmp.eq_of_compare hk).symm h.symm)
    · rw [ExtTreeMap.getElem?_empty, Option.none_or] at h
      exact Or.inl (ih h)

theorem getElem?_ofList_eq_none {entries : List (α × β)} {k : α} :
    (ExtTreeMap.ofList entries cmp)[k]? = none ↔ ∀ v, (k, v) ∉ entries := by
  induction entries using List.reverseRecOn with
  | nil => simp
  | append_singleton entries entry ih =>
    rw [getElem?_ofList_append, ExtTreeMap.ofList_singleton, ExtTreeMap.getElem?_insert]
    obtain ⟨k', v'⟩ := entry
    by_cases hk : k' = k
    · subst hk
      have hself : cmp k' k' = .eq := Std.ReflCmp.compare_self
      simp only [hself, if_true, Option.some_or, reduceCtorEq, false_iff, not_forall, not_not]
      exact ⟨v', by simp⟩
    · have hne : cmp k' k ≠ .eq := fun h => hk (LawfulEqCmp.eq_of_compare h)
      simp [hne, ih, Ne.symm hk]

/-- A name whose entries all have one value has that value. -/
theorem getElem?_ofList_of_agree {entries : List (α × β)} {k : α} {v : β} (hm : (k, v) ∈ entries)
    (h : ∀ v', (k, v') ∈ entries → v' = v) : (ExtTreeMap.ofList entries cmp)[k]? = some v := by
  cases hk : (ExtTreeMap.ofList entries cmp)[k]? with
  | none => exact absurd hm (getElem?_ofList_eq_none.mp hk v)
  | some v' => rw [h v' (getElem?_ofList_eq_some hk)]

/-- A map is the map of its entries, in any order. -/
theorem ofList_perm_toList {t : ExtTreeMap α β cmp} {entries : List (α × β)}
    (h : entries.Perm t.toList) : ExtTreeMap.ofList entries cmp = t := by
  refine ExtTreeMap.ext_getElem? fun k => ?_
  cases hk : t[k]? with
  | none =>
    refine getElem?_ofList_eq_none.mpr fun v hm => ?_
    rw [ExtTreeMap.mem_toList_iff_getElem?_eq_some.mp (h.mem_iff.mp hm)] at hk
    cases hk
  | some v =>
    refine getElem?_ofList_of_agree (h.mem_iff.mpr (ExtTreeMap.mem_toList_iff_getElem?_eq_some.mpr hk))
      fun v' hm => ?_
    rw [ExtTreeMap.mem_toList_iff_getElem?_eq_some.mp (h.mem_iff.mp hm)] at hk
    exact Option.some.inj hk

variable (cmp) in
/-- Where names repeat, an order of the items can make any of its values the one a name gets, for
    all names at once. -/
theorem exists_perm_ofList [DecidableEq β] {γ : Type} (f : γ → Option (α × β)) (items : List γ)
    (choice : α → β) (h : ∀ k v, (k, v) ∈ items.filterMap f → (k, choice k) ∈ items.filterMap f) :
    ∃ order : List γ, order.Perm items ∧ ∀ k v, (k, v) ∈ items.filterMap f →
      (ExtTreeMap.ofList (order.filterMap f) cmp)[k]? = some (choice k) := by
  let chosen : γ → Bool := fun item =>
    match f item with
    | some (k, v) => v = choice k
    | none => false
  -- The chosen items go last.
  refine ⟨items.filter (fun item => !chosen item) ++ items.filter chosen, ?_, fun k v hm => ?_⟩
  · have := List.filter_append_perm (fun item => !chosen item) items
    simpa using this
  · obtain ⟨item, hitem, hf⟩ := List.mem_filterMap.mp (h k v hm)
    rw [List.filterMap_append, getElem?_ofList_append, getElem?_ofList_of_agree (v := choice k),
      Option.some_or]
    · exact List.mem_filterMap.mpr ⟨item, List.mem_filter.mpr ⟨hitem, by simp [chosen, hf]⟩, hf⟩
    · intro v' hm'
      obtain ⟨item', hitem', hf'⟩ := List.mem_filterMap.mp hm'
      have := (List.mem_filter.mp hitem').2
      simpa [chosen, hf'] using this

/-! ## Entries set one after the other -/

variable [BEq α] [LawfulBEq α]

/-- Sets an entry that has a value. -/
def set (m : ExtTreeMap α β cmp) (name : α) (value : Option β) : ExtTreeMap α β cmp :=
  match value with
  | some value => m.insert name value
  | none => m

/-- Sets every entry that has a value, in order. -/
def setAll (m : ExtTreeMap α β cmp) (entries : List (α × Option β)) : ExtTreeMap α β cmp :=
  entries.foldl (fun m (name, value) => set m name value) m

theorem getElem?_set (m : ExtTreeMap α β cmp) (n k : α) (v : Option β) :
    (set m n v)[k]? = (if k == n then v else none).or m[k]? := by
  cases v with
  | none => simp [set]
  | some v =>
    rw [set, ExtTreeMap.getElem?_insert]
    by_cases hk : k = n
    · simp [hk]
    · have hc : cmp n k ≠ .eq := fun h => hk (LawfulEqCmp.eq_of_compare h).symm
      simp [hk, hc]

theorem lookup_eq_none {γ : Type} {entries : List (α × γ)} {k : α}
    (h : k ∉ entries.map (·.1)) : entries.lookup k = none := by
  rw [List.lookup_eq_none_iff]
  intro p hp
  rw [bne_iff_ne]
  exact fun he => h (he ▸ List.mem_map_of_mem hp)

/-- An entry set by the list, or else what the map had. -/
theorem getElem?_setAll (m : ExtTreeMap α β cmp) {entries : List (α × Option β)}
    (hd : (entries.map (·.1)).Nodup) (k : α) :
    (setAll m entries)[k]? = (entries.lookup k).join.or m[k]? := by
  induction entries generalizing m with
  | nil => simp [setAll]
  | cons entry entries ih =>
    obtain ⟨n, v⟩ := entry
    rw [List.map_cons, List.nodup_cons] at hd
    have hstep : setAll m ((n, v) :: entries) = setAll (set m n v) entries := rfl
    rw [hstep, ih _ hd.2, getElem?_set, List.lookup_cons]
    by_cases hk : k = n
    · subst hk
      simp [lookup_eq_none hd.1]
    · simp [beq_eq_false_iff_ne.mpr hk]

/-! ## The entries of a map -/

theorem lookup_of_mem {γ : Type} {entries : List (α × γ)} {k : α} {v : γ}
    (hd : (entries.map (·.1)).Nodup) (h : (k, v) ∈ entries) : entries.lookup k = some v := by
  induction entries with
  | nil => cases h
  | cons entry entries ih =>
    rw [List.map_cons, List.nodup_cons] at hd
    rcases List.mem_cons.mp h with rfl | h
    · rw [List.lookup_cons_self]
    · have hk : (k == entry.1) = false :=
        beq_eq_false_iff_ne.mpr fun he => hd.1 (he ▸ List.mem_map_of_mem h)
      rw [List.lookup_cons, hk, ih hd.2 h]

theorem lookup_toList (t : ExtTreeMap α β cmp) (k : α) : t.toList.lookup k = t[k]? := by
  cases h : t[k]? with
  | some v =>
    exact lookup_of_mem (nodup_toList t) (ExtTreeMap.mem_toList_iff_getElem?_eq_some.mpr h)
  | none =>
    refine lookup_eq_none fun hk => ?_
    obtain ⟨⟨k', v⟩, hp, rfl⟩ := List.mem_map.mp hk
    rw [ExtTreeMap.mem_toList_iff_getElem?_eq_some.mp hp] at h
    cases h

/-- Inserting a map's entries: each name has the entry's value, or else what it had. -/
theorem getElem?_foldl_toList (m t : ExtTreeMap α β cmp) (k : α) :
    (t.toList.foldl (fun m (name, value) => m.insert name value) m)[k]? = t[k]?.or m[k]? := by
  have hset : t.toList.foldl (fun m (name, value) => m.insert name value) m =
      setAll m (t.toList.map fun (name, value) => (name, some value)) := by
    rw [setAll, List.foldl_map]
    rfl
  have hlookup (l : List (α × β)) :
      ((l.map fun (name, value) => (name, some value)).lookup k).join = l.lookup k := by
    induction l with
    | nil => rfl
    | cons entry l ih =>
      rw [List.map_cons, List.lookup_cons, List.lookup_cons]
      split <;> simp [*]
  rw [hset, getElem?_setAll, hlookup, lookup_toList]
  rw [List.map_map]
  exact nodup_toList t

theorem foldl_toList_empty (t : ExtTreeMap α β cmp) :
    t.toList.foldl (fun m (name, value) => m.insert name value) ∅ = t := by
  refine ExtTreeMap.ext_getElem? fun k => ?_
  rw [getElem?_foldl_toList, ExtTreeMap.getElem?_empty, Option.or_none]

end SisaMessaging.Lib.TreeMap
