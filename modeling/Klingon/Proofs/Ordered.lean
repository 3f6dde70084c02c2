import Mathlib.Data.List.Nodup
import Klingon.Ordered

/-!
# Increasing sets and maps

What a set or a map holds after an element was put into it, and what it holds of the list that it was
made of.
-/

namespace Klingon.Ordered

/-! ## Sets -/

section Sets

variable {α : Type} [Ord α] {a b : α} {items set : List α}

theorem mem_insert [Std.LawfulEqOrd α] : b ∈ insert a set ↔ b = a ∨ b ∈ set := by
  induction set with
  | nil => exact List.mem_cons
  | cons c rest ih =>
    rw [insert]
    split
    · exact List.mem_cons
    · next heq =>
      rw [Std.LawfulEqOrd.eq_of_compare heq, List.mem_cons, or_self_left]
    · rw [List.mem_cons, ih, List.mem_cons, or_left_comm]

theorem mem_foldr_insert [Std.LawfulEqOrd α] :
    a ∈ items.foldr insert set ↔ a ∈ items ∨ a ∈ set := by
  induction items with
  | nil => simp
  | cons b rest ih => rw [List.foldr_cons, mem_insert, ih, List.mem_cons, or_assoc]

theorem mem_ofList [Std.LawfulEqOrd α] : a ∈ ofList items ↔ a ∈ items := by
  rw [ofList, mem_foldr_insert, or_iff_left List.not_mem_nil]

theorem ofList_ne_nil (h : items ≠ []) : ofList items ≠ [] := by
  cases items with
  | nil => exact absurd rfl h
  | cons a rest =>
    rw [ofList, List.foldr_cons]
    cases rest.foldr insert [] with
    | nil => exact List.cons_ne_nil _ _
    | cons b bs =>
      rw [insert]
      split <;> exact List.cons_ne_nil _ _

end Sets

/-! ## Maps -/

variable {κ ν : Type} [Ord κ] [Std.LawfulEqOrd κ] {key : κ} {value : ν} {entry : κ × ν}
  {map pairs : List (κ × ν)}

/-- A key that is not bound yet is bound besides the others. -/
theorem mem_put (h : ∀ p ∈ map, p.1 ≠ key) :
    entry ∈ put key value map ↔ entry = (key, value) ∨ entry ∈ map := by
  induction map with
  | nil => simp [put]
  | cons p rest ih =>
    have hrest := ih fun q hq => h q (List.mem_cons_of_mem _ hq)
    rw [put]
    split
    · rw [List.mem_cons]
    · rename_i heq
      have := h p List.mem_cons_self
      exact absurd (Std.LawfulEqOrd.eq_of_compare heq).symm this
    · rw [List.mem_cons, hrest, List.mem_cons, or_left_comm]

/-- The map of pairs with different keys has these pairs as its entries. -/
theorem mem_ofPairs (h : (pairs.map (·.1)).Nodup) : entry ∈ ofPairs pairs ↔ entry ∈ pairs := by
  have hfold : ∀ map : List (κ × ν), (∀ p ∈ map, p.1 ∉ pairs.map (·.1)) →
      (entry ∈ pairs.foldl (fun map p => put p.1 p.2 map) map ↔ entry ∈ pairs ∨ entry ∈ map) := by
    induction pairs with
    | nil => simp
    | cons p rest ih =>
      intro map hmap
      obtain ⟨hp, hrest⟩ := List.nodup_cons.mp h
      have hne : ∀ q ∈ map, q.1 ≠ p.1 := by
        intro q hq heq
        exact hmap q hq (heq ▸ List.mem_cons_self)
      rw [List.foldl_cons, ih hrest, mem_put hne, List.mem_cons, or_left_comm, or_assoc]
      intro q hq
      rcases (mem_put hne).mp hq with rfl | hq
      · exact hp
      · exact fun hin => hmap q hq (List.mem_cons_of_mem _ hin)
  rw [ofPairs, hfold [] (fun p hp => absurd hp List.not_mem_nil)]
  simp

theorem mem_keys_put {k : κ} :
    k ∈ (put key value map).map (·.1) ↔ k = key ∨ k ∈ map.map (·.1) := by
  induction map with
  | nil => simp [put]
  | cons p rest ih =>
    rw [put]
    split
    · rw [List.map_cons, List.mem_cons]
    · next heq =>
      have hkey := Std.LawfulEqOrd.eq_of_compare heq
      simp [hkey]
    · rw [List.map_cons, List.mem_cons, ih, List.map_cons, List.mem_cons, or_left_comm]

/-- The keys of a map are those of the pairs it is made of. -/
theorem mem_keys_ofPairs {k : κ} : k ∈ (ofPairs pairs).map (·.1) ↔ k ∈ pairs.map (·.1) := by
  have hfold : ∀ map : List (κ × ν), k ∈ (pairs.foldl (fun map p => put p.1 p.2 map) map).map (·.1) ↔
      k ∈ pairs.map (·.1) ∨ k ∈ map.map (·.1) := by
    induction pairs with
    | nil => simp
    | cons p rest ih =>
      intro map
      rw [List.foldl_cons, ih, mem_keys_put, List.map_cons, List.mem_cons, or_left_comm, or_assoc]
  rw [ofPairs, hfold []]
  simp

/-! ## The order of the entries -/

/-- The keys of a map, strictly increasing. -/
def Increasing (map : List (κ × ν)) : Prop :=
  (map.map (·.1)).Pairwise (compare · · = .lt)

theorem increasing_put [Std.TransOrd κ] (h : Increasing map) : Increasing (put key value map) := by
  induction map with
  | nil => exact List.pairwise_singleton _ _
  | cons p rest ih =>
    obtain ⟨hp, hrest⟩ := List.pairwise_cons.mp h
    rw [put]
    split
    · next hlt =>
      refine List.pairwise_cons.mpr ⟨fun k hk => ?_, h⟩
      rcases List.mem_cons.mp hk with rfl | hk
      · exact hlt
      · exact Std.TransCmp.lt_trans hlt (hp k hk)
    · next heq =>
      rw [Std.LawfulEqOrd.eq_of_compare heq]
      exact h
    · next hgt =>
      refine List.pairwise_cons.mpr ⟨fun k hk => ?_, ih hrest⟩
      rcases mem_keys_put.mp hk with rfl | hk
      · exact Std.OrientedCmp.lt_of_gt hgt
      · exact hp k hk

theorem increasing_ofPairs [Std.TransOrd κ] (pairs : List (κ × ν)) : Increasing (ofPairs pairs) := by
  have hfold : ∀ map : List (κ × ν), Increasing map →
      Increasing (pairs.foldl (fun map p => put p.1 p.2 map) map) := by
    induction pairs with
    | nil => exact fun map h => h
    | cons p rest ih => exact fun map h => ih _ (increasing_put h)
  exact hfold [] List.Pairwise.nil

theorem Increasing.nodup (h : Increasing map) : (map.map (·.1)).Nodup := by
  refine h.imp fun hlt heq => ?_
  rw [heq, Std.ReflOrd.compare_self] at hlt
  cases hlt

omit [Std.LawfulEqOrd κ] in
/-- Leaving entries out and changing values keeps the order of the keys. -/
theorem Increasing.filterMap {ω : Type} {f : κ × ν → Option (κ × ω)}
    (hkeys : ∀ p q, f p = some q → q.1 = p.1) (h : Increasing map) :
    Increasing (map.filterMap f) := by
  refine List.pairwise_map.mpr (List.Pairwise.filterMap f ?_ (List.pairwise_map.mp h))
  intro p p' hlt q hq q' hq'
  rw [hkeys p q hq, hkeys p' q' hq']
  exact hlt

/-- A map is known by its entries. -/
theorem Increasing.eq_of_mem_iff [Std.TransOrd κ] {map' : List (κ × ν)} (h : Increasing map)
    (h' : Increasing map') (hmem : ∀ entry, entry ∈ map ↔ entry ∈ map') : map = map' := by
  have hnodup : ∀ {map : List (κ × ν)}, Increasing map → map.Nodup :=
    fun hmap => List.Nodup.of_map _ hmap.nodup
  have hperm : map.Perm map' := (List.perm_ext_iff_of_nodup (hnodup h) (hnodup h')).mpr hmem
  refine List.Perm.eq_of_pairwise (fun p q _ _ hpq hqp => ?_) (List.pairwise_map.mp h)
    (List.pairwise_map.mp h') hperm
  rw [Std.OrientedCmp.gt_of_lt hpq] at hqp
  cases hqp

/-- Pairs in increasing order are the map that they make. -/
theorem ofPairs_eq_self [Std.TransOrd κ] (h : Increasing pairs) : ofPairs pairs = pairs :=
  (increasing_ofPairs pairs).eq_of_mem_iff h fun _ => mem_ofPairs h.nodup

/-- The order of pairs with different keys does not matter to the map that they make. -/
theorem ofPairs_perm [Std.TransOrd κ] {pairs' : List (κ × ν)} (h : (pairs.map (·.1)).Nodup)
    (hperm : pairs.Perm pairs') : ofPairs pairs = ofPairs pairs' := by
  have h' : (pairs'.map (·.1)).Nodup := (hperm.map _).nodup h
  refine (increasing_ofPairs pairs).eq_of_mem_iff (increasing_ofPairs pairs') fun entry => ?_
  rw [mem_ofPairs h, mem_ofPairs h', hperm.mem_iff]

omit [Std.LawfulEqOrd κ] in
/-- A key before all others is put in front. -/
theorem put_of_lt (h : ∀ p ∈ map, compare key p.1 = .lt) : put key value map = (key, value) :: map := by
  cases map with
  | nil => rfl
  | cons p rest => rw [put, h p List.mem_cons_self]

/-- Leaving out some keys of a map is not binding them. -/
theorem filter_put [Std.TransOrd κ] (keep : κ → Bool) (h : Increasing map) :
    (put key value map).filter (fun p => keep p.1) =
      if keep key then put key value (map.filter fun p => keep p.1)
      else map.filter fun p => keep p.1 := by
  induction map with
  | nil => by_cases hkey : keep key <;> simp [put, hkey]
  | cons p rest ih =>
    obtain ⟨hfirst, hrest⟩ := List.pairwise_cons.mp h
    rw [put]
    split
    · next hlt =>
      have hleast : ∀ q ∈ (p :: rest).filter (fun q => keep q.1), compare key q.1 = .lt := by
        intro q hq
        rcases List.mem_cons.mp (List.mem_of_mem_filter hq) with rfl | hq
        · exact hlt
        · exact Std.TransCmp.lt_trans hlt (hfirst q.1 (List.mem_map_of_mem hq))
      rw [put_of_lt hleast, List.filter_cons]
    · next heq =>
      cases Std.LawfulEqOrd.eq_of_compare heq
      by_cases hkey : keep p.1 <;> simp [hkey, put]
    · next hgt =>
      rw [List.filter_cons, ih hrest, List.filter_cons]
      by_cases hp : keep p.1 <;> by_cases hkey : keep key <;> simp [hp, hkey, put, hgt]

theorem filter_ofPairs [Std.TransOrd κ] (keep : κ → Bool) :
    (ofPairs pairs).filter (fun p => keep p.1) = ofPairs (pairs.filter fun p => keep p.1) := by
  have hfold : ∀ map : List (κ × ν), Increasing map →
      (pairs.foldl (fun map p => put p.1 p.2 map) map).filter (fun p => keep p.1) =
        (pairs.filter fun p => keep p.1).foldl (fun map p => put p.1 p.2 map)
          (map.filter fun p => keep p.1) := by
    induction pairs with
    | nil => exact fun map h => rfl
    | cons p rest ih =>
      intro map h
      rw [List.foldl_cons, ih _ (increasing_put h), filter_put keep h, List.filter_cons]
      split <;> rfl
  exact hfold [] List.Pairwise.nil

/-! ## Looking up -/

theorem Increasing.lookup_eq_some_iff [BEq κ] [LawfulBEq κ] (h : Increasing map) :
    map.lookup key = some value ↔ (key, value) ∈ map := by
  constructor
  · intro hlookup
    obtain ⟨front, back, rfl, _⟩ := List.lookup_eq_some_iff.mp hlookup
    exact List.mem_append_right _ List.mem_cons_self
  · intro hmem
    obtain ⟨front, back, rfl⟩ := List.append_of_mem hmem
    have hnodup := h.nodup
    rw [List.map_append, List.map_cons] at hnodup
    have hfront := (List.nodup_middle.mp hnodup).notMem
    refine List.lookup_eq_some_iff.mpr ⟨front, back, rfl, fun p hp => bne_iff_ne.mpr ?_⟩
    rintro rfl
    exact hfront (List.mem_append_left _ (List.mem_map.mpr ⟨p, hp, rfl⟩))

/-- Where values are changed or left out, the change of a value is looked up. -/
theorem Increasing.lookup_filterMap {ω : Type} [BEq κ] [LawfulBEq κ] (h : Increasing map)
    (f : ν → Option ω) (key : κ) :
    (map.filterMap fun p => (f p.2).map fun value => (p.1, value)).lookup key =
      (map.lookup key).bind f := by
  have hkeys : ∀ (p : κ × ν) (q : κ × ω),
      ((f p.2).map fun value => (p.1, value)) = some q → q.1 = p.1 := by
    intro p q hq
    obtain ⟨value, _, rfl⟩ := Option.map_eq_some_iff.mp hq
    rfl
  refine Option.ext fun value => ?_
  rw [(h.filterMap hkeys).lookup_eq_some_iff, List.mem_filterMap, Option.bind_eq_some_iff]
  constructor
  · rintro ⟨⟨_, old⟩, hmem, hchange⟩
    obtain ⟨new, hnew, heq⟩ := Option.map_eq_some_iff.mp hchange
    cases heq
    exact ⟨old, h.lookup_eq_some_iff.mpr hmem, hnew⟩
  · rintro ⟨old, hold, hnew⟩
    exact ⟨(key, old), h.lookup_eq_some_iff.mp hold,
      Option.map_eq_some_iff.mpr ⟨value, hnew, rfl⟩⟩

/-! ## What a map keeps -/

variable {weight : ν → Nat}

/-- The weight of the values of a map. -/
def total (weight : ν → Nat) : List (κ × ν) → Nat
  | [] => 0
  | (_, value) :: rest => weight value + total weight rest

omit [Ord κ] [Std.LawfulEqOrd κ] in
theorem total_cons : total weight ((key, value) :: map) = weight value + total weight map := rfl

omit [Std.LawfulEqOrd κ] in
theorem mem_of_mem_put (h : entry ∈ put key value map) : entry = (key, value) ∨ entry ∈ map := by
  induction map with
  | nil => exact .inl (List.mem_singleton.mp h)
  | cons p rest ih =>
    rw [put] at h
    split at h
    · exact List.mem_cons.mp h
    · exact (List.mem_cons.mp h).imp_right (List.mem_cons_of_mem p)
    · rcases List.mem_cons.mp h with rfl | h
      · exact .inr List.mem_cons_self
      · exact (ih h).imp_right (List.mem_cons_of_mem p)

omit [Std.LawfulEqOrd κ] in
/-- A map holds no other pairs than those that it was made of. -/
theorem mem_of_mem_ofPairs (h : entry ∈ ofPairs pairs) : entry ∈ pairs := by
  have hfold : ∀ map : List (κ × ν), entry ∈ pairs.foldl (fun map p => put p.1 p.2 map) map →
      entry ∈ map ∨ entry ∈ pairs := by
    clear h
    induction pairs with
    | nil => exact fun map h => .inl h
    | cons p rest ih =>
      intro map h
      rcases ih _ h with h | h
      · rcases mem_of_mem_put h with rfl | h
        · exact .inr List.mem_cons_self
        · exact .inl h
      · exact .inr (List.mem_cons_of_mem p h)
  exact (hfold [] h).resolve_left List.not_mem_nil

omit [Std.LawfulEqOrd κ] in
theorem total_put_le : total weight (put key value map) ≤ weight value + total weight map := by
  induction map with
  | nil => exact Nat.le_refl _
  | cons p rest ih =>
    obtain ⟨k, v⟩ := p
    rw [put]
    split
    · exact Nat.le_of_eq total_cons
    · rw [total_cons, total_cons]
      omega
    · rw [total_cons, total_cons]
      omega

/-- A value that replaces another one. -/
theorem total_put_lt [Std.TransOrd κ] (hmap : Increasing map) (hpos : ∀ p ∈ map, 0 < weight p.2)
    (hkey : key ∈ map.map (·.1)) :
    total weight (put key value map) < weight value + total weight map := by
  induction map with
  | nil => exact absurd hkey List.not_mem_nil
  | cons p rest ih =>
    obtain ⟨k, v⟩ := p
    obtain ⟨hfirst, hrest⟩ := List.pairwise_cons.mp hmap
    have hp : 0 < weight v := hpos (k, v) List.mem_cons_self
    rw [put]
    split
    · next hlt =>
      exfalso
      rcases List.mem_cons.mp hkey with rfl | hkey
      · rw [Std.ReflOrd.compare_self] at hlt
        cases hlt
      · have hgt := Std.OrientedCmp.gt_of_lt (hfirst key hkey)
        rw [hlt] at hgt
        cases hgt
    · rw [total_cons, total_cons]
      omega
    · next hgt =>
      have hne : key ≠ k := by
        rintro rfl
        rw [Std.ReflOrd.compare_self] at hgt
        cases hgt
      have := ih hrest (fun q hq => hpos q (List.mem_cons_of_mem _ hq))
        ((List.mem_cons.mp hkey).resolve_left hne)
      rw [total_cons, total_cons]
      omega

/-- Pairs that are bound one after the other weigh no more in the map, and as much only if no value
replaces another one. -/
theorem total_foldl_put [Std.TransOrd κ] (hmap : Increasing map)
    (hweights : ∀ p ∈ map, 0 < weight p.2) (hpos : ∀ p ∈ pairs, 0 < weight p.2) :
    let made := pairs.foldl (fun map p => put p.1 p.2 map) map
    total weight made ≤ total weight pairs + total weight map ∧
      (total weight pairs + total weight map ≤ total weight made →
        (pairs.map (·.1)).Nodup ∧ ∀ k ∈ pairs.map (·.1), k ∉ map.map (·.1)) := by
  induction pairs generalizing map with
  | nil => exact ⟨by simp [total], fun _ => ⟨List.nodup_nil, by simp⟩⟩
  | cons p rest ih =>
    obtain ⟨key, value⟩ := p
    obtain ⟨hp, hrest⟩ := List.forall_mem_cons.mp hpos
    have hput : ∀ q ∈ put key value map, 0 < weight q.2 := by
      intro q hq
      rcases mem_of_mem_put hq with rfl | hq
      · exact hp
      · exact hweights q hq
    obtain ⟨hle, hkeep⟩ := ih (increasing_put hmap) hput hrest
    have hfirst : total weight (put key value map) ≤ weight value + total weight map :=
      total_put_le
    simp only [List.foldl_cons, total_cons]
    refine ⟨by omega, fun hall => ?_⟩
    obtain ⟨hnodup, hdisjoint⟩ := hkeep (by omega)
    have hnew : key ∉ map.map (·.1) := by
      intro hkey
      have hlt : total weight (put key value map) < weight value + total weight map :=
        total_put_lt hmap hweights hkey
      omega
    refine ⟨List.nodup_cons.mpr ⟨fun hkey => ?_, hnodup⟩, ?_⟩
    · exact hdisjoint key hkey (mem_keys_put.mpr (.inl rfl))
    · rw [List.map_cons, List.forall_mem_cons]
      exact ⟨hnew, fun k hk hin => hdisjoint k hk (mem_keys_put.mpr (.inr hin))⟩

/-- Nothing is lost only if no key is bound twice. -/
theorem nodup_of_total_ofPairs [Std.TransOrd κ] (hpos : ∀ p ∈ pairs, 0 < weight p.2)
    (h : total weight pairs ≤ total weight (ofPairs pairs)) : (pairs.map (·.1)).Nodup := by
  have hnil : Increasing ([] : List (κ × ν)) := List.Pairwise.nil
  have hkeep := (total_foldl_put hnil (fun _ hp => absurd hp List.not_mem_nil) hpos).2
  exact (hkeep (by simpa [total, ofPairs] using h)).1

end Klingon.Ordered
