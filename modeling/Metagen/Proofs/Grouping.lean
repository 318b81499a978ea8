import Metagen.Grouping
import Mathlib.Data.List.Induction
import Mathlib.Data.List.Nodup

/-! Groups hold exactly what was put into them: each key has one group, and the group of a key holds
the items that came with it, in their order. Keys are compared by an equality of their own, which is
symmetric and transitive; equal keys need not be the same, and a key need not equal itself. An item
is found to be repeated just when there is one. -/

namespace Metagen

variable {Key Item : Type}

section Groups

variable [BEq Key]

/-- One more item is a first appearance unless an equal one has appeared. -/
theorem eraseDups_concat (keys : List Key) (key : Key) :
    (keys ++ [key]).eraseDups =
      if keys.eraseDups.contains key then keys.eraseDups else keys.eraseDups ++ [key] := by
  cases keys with
  | nil => simp [List.eraseDups_cons]
  | cons first rest =>
      rw [List.cons_append, List.eraseDups_cons, List.eraseDups_cons, List.filter_append,
        List.contains_cons]
      cases hFirst : key == first with
      | true => simp [hFirst]
      | false =>
          have hKept : [key].filter (fun k => !k == first) = [key] := by simp [hFirst]
          rw [hKept, eraseDups_concat (rest.filter fun k => !k == first) key, Bool.false_or]
          split <;> rfl
-- What is erased behind the first key is a filtered list and not the rest itself.
termination_by keys.length
decreasing_by exact Nat.lt_succ_of_le (List.length_filter_le _ _)

/-- No first appearance equals one before it. -/
theorem pairwise_eraseDups (keys : List Key) :
    keys.eraseDups.Pairwise fun first later => (later == first) = false := by
  induction keys using List.reverseRecOn with
  | nil => simp
  | append_singleton keys key ih =>
      rw [eraseDups_concat]
      split
      · exact ih
      · next hNew =>
        refine List.pairwise_append.2 ⟨ih, List.pairwise_singleton _ _, ?_⟩
        intro first hFirst later hLater
        obtain rfl := List.mem_singleton.1 hLater
        rw [List.contains_iff_exists_mem_beq, not_exists] at hNew
        simpa [hFirst] using hNew first

/-- Groups under other keys stay as they are. -/
theorem addToGroup_append {key : Key} {before : List (Key × List Item)}
    (h : ∀ group ∈ before, (group.1 == key) = false) (item : Item)
    (groups : List (Key × List Item)) :
    addToGroup key item (before ++ groups) = before ++ addToGroup key item groups := by
  induction before with
  | nil => rfl
  | cons group rest ih =>
      rw [List.forall_mem_cons] at h
      simp [addToGroup, h.1, ih h.2]

theorem addToGroup_new {key : Key} {groups : List (Key × List Item)}
    (h : ∀ group ∈ groups, (group.1 == key) = false) (item : Item) :
    addToGroup key item groups = groups ++ [(key, [item])] := by
  have hNew := addToGroup_append h item []
  rwa [List.append_nil] at hNew

/-- An item either joins the first group whose key equals its own, or gets a new group. -/
theorem addToGroup_cases (key : Key) (item : Item) (groups : List (Key × List Item)) :
    (∃ before k items after, groups = before ++ (k, items) :: after ∧ (k == key) = true ∧
      (∀ group ∈ before, (group.1 == key) = false) ∧
        addToGroup key item groups = before ++ (k, items ++ [item]) :: after) ∨
    ((∀ group ∈ groups, (group.1 == key) = false) ∧
      addToGroup key item groups = groups ++ [(key, [item])]) := by
  cases hFound : groups.find? (·.1 == key) with
  | none =>
      have hNone : ∀ group ∈ groups, (group.1 == key) = false := by simpa using hFound
      exact .inr ⟨hNone, addToGroup_new hNone item⟩
  | some group =>
      obtain ⟨k, items⟩ := group
      obtain ⟨hKey, before, after, rfl, hNone⟩ := List.find?_eq_some_iff_append.1 hFound
      have hBefore : ∀ group ∈ before, (group.1 == key) = false := by simpa using hNone
      refine .inl ⟨before, k, items, after, rfl, hKey, hBefore, ?_⟩
      rw [addToGroup_append hBefore, addToGroup, if_pos hKey]

/-- Adding a pair leaves a group as it is, makes a group of one item, or puts the item behind those
of a group with an equal key. -/
theorem mem_addToGroup {key : Key} {item : Item} {groups : List (Key × List Item)}
    {group : Key × List Item} (h : group ∈ addToGroup key item groups) :
    group ∈ groups ∨ group = (key, [item]) ∨
      ∃ k items, (k == key) = true ∧ group = (k, items ++ [item]) := by
  rcases addToGroup_cases key item groups with
    ⟨before, k, items, after, rfl, hKey, -, hJoined⟩ | ⟨-, hNew⟩
  · rw [hJoined, List.mem_append, List.mem_cons] at h
    rcases h with hBefore | rfl | hAfter
    · exact .inl (List.mem_append_left _ hBefore)
    · exact .inr (.inr ⟨k, items, hKey, rfl⟩)
    · exact .inl (List.mem_append_right _ (.tail _ hAfter))
  · rw [hNew, List.mem_append, List.mem_singleton] at h
    exact h.imp_right .inl

/-- An item comes to those of the groups, wherever it is put. -/
theorem items_addToGroup (key : Key) (item : Item) (groups : List (Key × List Item)) :
    ((addToGroup key item groups).flatMap (·.2)).Perm (groups.flatMap (·.2) ++ [item]) := by
  rcases addToGroup_cases key item groups with
    ⟨before, k, items, after, rfl, -, -, hJoined⟩ | ⟨-, hNew⟩
  · rw [hJoined]
    simp only [List.flatMap_append, List.flatMap_cons, List.append_assoc]
    exact (List.perm_append_comm.append_left items).append_left _
  · simp [hNew]

/-- The keys of groups stay as they are if the key has a group already; otherwise it comes behind
them. -/
theorem keys_addToGroup [PartialEquivBEq Key] (key : Key) (item : Item)
    (groups : List (Key × List Item)) :
    (addToGroup key item groups).map (·.1) =
      if (groups.map (·.1)).contains key then groups.map (·.1) else groups.map (·.1) ++ [key] := by
  rcases addToGroup_cases key item groups with
    ⟨before, k, items, after, rfl, hKey, -, hJoined⟩ | ⟨hNone, hNew⟩
  · have hOld : ((before ++ (k, items) :: after).map (·.1)).contains key = true :=
      List.contains_iff_exists_mem_beq.2 ⟨k, by simp, BEq.symm hKey⟩
    rw [hJoined, if_pos hOld]
    simp
  · have hAbsent : ¬ (groups.map (·.1)).contains key = true := by
      rw [List.contains_iff_exists_mem_beq]
      rintro ⟨k, hk, hEq⟩
      obtain ⟨group, hGroup, rfl⟩ := List.mem_map.1 hk
      rw [BEq.symm_false (hNone group hGroup)] at hEq
      cases hEq
    rw [hNew, if_neg hAbsent]
    simp

def itemsUnder (key : Key) (pairs : List (Key × Item)) : List Item :=
  (pairs.filter (key == ·.1)).map (·.2)

/-- The items of the group that a key has. -/
def itemsAt (key : Key) (groups : List (Key × List Item)) : List Item :=
  (groups.lookup key).getD []

/-- Where no group has an equal key, nothing is found under a key that equals it. -/
theorem lookup_eq_none_of_apart [PartialEquivBEq Key] {key : Key}
    {groups : List (Key × List Item)} (h : ∀ group ∈ groups, (group.1 == key) = false) {k : Key}
    (hk : (k == key) = true) : groups.lookup k = none := by
  rw [List.lookup_eq_none_iff]
  intro group hGroup
  rw [bne, BEq.congr_left hk, BEq.symm_false (h group hGroup), Bool.not_false]

/-- What is looked up grows just where an item of that key is added. -/
theorem itemsAt_addToGroup [PartialEquivBEq Key] (key : Key) (item : Item)
    (groups : List (Key × List Item)) (k : Key) :
    itemsAt k (addToGroup key item groups) =
      itemsAt k groups ++ itemsUnder k [(key, item)] := by
  cases hk : k == key with
  | false =>
      have hSame : (addToGroup key item groups).lookup k = groups.lookup k := by
        rcases addToGroup_cases key item groups with
          ⟨before, k', items, after, rfl, hKey, -, hJoined⟩ | ⟨-, hNew⟩
        · have hOther : (k == k') = false := by rw [BEq.congr_right hKey, hk]
          simp [hJoined, List.lookup_append, List.lookup_cons, hOther]
        · simp [hNew, List.lookup_append, List.lookup_cons, hk]
      simp [itemsAt, itemsUnder, hSame, hk]
  | true =>
      rcases addToGroup_cases key item groups with
        ⟨before, k', items, after, rfl, hKey, hBefore, hJoined⟩ | ⟨hNone, hNew⟩
      · have hSame : (k == k') = true := by rw [BEq.congr_right hKey, hk]
        have hOther := lookup_eq_none_of_apart hBefore hk
        simp [itemsAt, itemsUnder, hJoined, List.lookup_append, List.lookup_cons, hOther, hSame, hk]
      · have hOther := lookup_eq_none_of_apart hNone hk
        simp [itemsAt, itemsUnder, hNew, List.lookup_append, List.lookup_cons, hOther, hk]

/-- Groups of which none is empty and no two have one key; only under a key that equals itself can
several items meet. -/
structure DistinctGroups (groups : List (Key × List Item)) : Prop where
  keys_distinct : (groups.map (·.1)).Pairwise fun first later => (later == first) = false
  items_ne_nil : ∀ group ∈ groups, group.2 ≠ []
  beq_self : ∀ group ∈ groups, 1 < group.2.length → (group.1 == group.1) = true

/-- What groups of pairs have to be: their keys are the first appearances among those of the pairs,
under any key there is what came with it, in its order, and all items are there, each as often as it
came. -/
structure IsGrouping (pairs : List (Key × Item)) (groups : List (Key × List Item)) : Prop
    extends DistinctGroups groups where
  keys_eq : groups.map (·.1) = (pairs.map (·.1)).eraseDups
  itemsAt_eq : ∀ key, itemsAt key groups = itemsUnder key pairs
  items_perm : (groups.flatMap (·.2)).Perm (pairs.map (·.2))

/-- One more item keeps the grouping. -/
theorem IsGrouping.addToGroup [PartialEquivBEq Key] {pairs : List (Key × Item)}
    {groups : List (Key × List Item)} (h : IsGrouping pairs groups) (key : Key) (item : Item) :
    IsGrouping (pairs ++ [(key, item)]) (addToGroup key item groups) := by
  have hKeys : (Metagen.addToGroup key item groups).map (·.1) =
      ((pairs ++ [(key, item)]).map (·.1)).eraseDups := by
    rw [keys_addToGroup, h.keys_eq, List.map_append, List.map_singleton, eraseDups_concat]
  refine ⟨⟨hKeys ▸ pairwise_eraseDups _, ?_, ?_⟩, hKeys, fun k => ?_, ?_⟩
  · intro group hGroup
    rcases mem_addToGroup hGroup with hOld | rfl | ⟨k, items, -, rfl⟩
    · exact h.items_ne_nil group hOld
    · simp
    · simp
  · intro group hGroup hSeveral
    rcases mem_addToGroup hGroup with hOld | rfl | ⟨k, items, hKey, rfl⟩
    · exact h.beq_self group hOld hSeveral
    · simp at hSeveral
    · exact BEq.trans hKey (BEq.symm hKey)
  · rw [itemsAt_addToGroup, h.itemsAt_eq, itemsUnder, itemsUnder, itemsUnder, List.filter_append,
      List.map_append]
  · rw [List.map_append, List.map_singleton]
    exact (items_addToGroup key item groups).trans (h.items_perm.append_right _)

theorem groupByKey_append (first second : List (Key × Item)) :
    groupByKey (first ++ second) =
      second.foldl (fun groups pair => addToGroup pair.1 pair.2 groups) (groupByKey first) :=
  List.foldl_append

/-- Grouping pairs one after the other gives what a grouping of them has to be. -/
theorem isGrouping_groupByKey [PartialEquivBEq Key] (pairs : List (Key × Item)) :
    IsGrouping pairs (groupByKey pairs) := by
  induction pairs using List.reverseRecOn with
  | nil => refine ⟨⟨?_, ?_, ?_⟩, ?_, ?_, ?_⟩ <;> simp [groupByKey, itemsAt, itemsUnder]
  | append_singleton pairs pair ih =>
      rw [groupByKey_append]
      exact ih.addToGroup pair.1 pair.2

/-- Every group is found under its key. -/
theorem DistinctGroups.itemsAt_of_mem [PartialEquivBEq Key] {groups : List (Key × List Item)}
    (h : DistinctGroups groups) {group : Key × List Item} (hGroup : group ∈ groups) {key : Key}
    (hKey : (group.1 == key) = true) : itemsAt key groups = group.2 := by
  obtain ⟨before, after, rfl⟩ := List.append_of_mem hGroup
  have hDistinct := h.keys_distinct
  rw [List.map_append, List.map_cons, List.pairwise_append] at hDistinct
  have hApart : ∀ other ∈ before, (other.1 == group.1) = false := fun other hOther =>
    BEq.symm_false (hDistinct.2.2 other.1 (List.mem_map_of_mem hOther) group.1 (.head _))
  have hBefore := lookup_eq_none_of_apart hApart (BEq.symm hKey)
  rw [itemsAt, List.lookup_append, hBefore, Option.none_or, List.lookup_cons, BEq.symm hKey]
  rfl

theorem IsGrouping.items_eq [PartialEquivBEq Key] {pairs : List (Key × Item)}
    {groups : List (Key × List Item)} (h : IsGrouping pairs groups) {group : Key × List Item}
    (hGroup : group ∈ groups) {key : Key} (hKey : (group.1 == key) = true) :
    group.2 = itemsUnder key pairs := by
  rw [← h.itemsAt_eq, h.itemsAt_of_mem hGroup hKey]

/-- The pairs of groups, one group after the other. -/
def ungroup (groups : List (Key × List Item)) : List (Key × Item) :=
  groups.flatMap fun group => group.2.map (group.1, ·)

/-- Items under the key of the last group join it one after the other. -/
theorem foldl_addToGroup_last {key : Key} (hSelf : (key == key) = true)
    {before : List (Key × List Item)} (hBefore : ∀ group ∈ before, (group.1 == key) = false)
    (items more : List Item) :
    (more.map (key, ·)).foldl (fun groups pair => addToGroup pair.1 pair.2 groups)
      (before ++ [(key, items)]) = before ++ [(key, items ++ more)] := by
  induction more generalizing items with
  | nil => simp
  | cons item more ih =>
      rw [List.map_cons, List.foldl_cons, addToGroup_append hBefore, addToGroup, if_pos hSelf, ih,
        List.append_assoc, List.singleton_append]

/-- The pairs of a group make up that group, behind groups under other keys. -/
theorem foldl_addToGroup_group {key : Key} {items : List Item} (hItems : items ≠ [])
    (hSelf : 1 < items.length → (key == key) = true) {before : List (Key × List Item)}
    (hBefore : ∀ group ∈ before, (group.1 == key) = false) :
    (items.map (key, ·)).foldl (fun groups pair => addToGroup pair.1 pair.2 groups) before =
      before ++ [(key, items)] := by
  cases items with
  | nil => exact absurd rfl hItems
  | cons first more =>
      rw [List.map_cons, List.foldl_cons, addToGroup_new hBefore]
      cases more with
      | nil => rfl
      | cons second more =>
          have hKey : (key == key) = true := hSelf (by simp)
          exact foldl_addToGroup_last hKey hBefore [first] (second :: more)

/-- Distinct groups are found again in their pairs. -/
theorem groupByKey_ungroup [PartialEquivBEq Key] {groups : List (Key × List Item)}
    (h : DistinctGroups groups) : groupByKey (ungroup groups) = groups := by
  -- On the last group: its key is apart from those before it, so its pairs leave them alone.
  induction groups using List.reverseRecOn with
  | nil => rfl
  | append_singleton groups group ih =>
      obtain ⟨key, items⟩ := group
      obtain ⟨hDistinct, hItems, hSelf⟩ := h
      simp only [List.forall_mem_append, List.forall_mem_singleton] at hItems hSelf
      rw [List.map_append, List.pairwise_append] at hDistinct
      obtain ⟨hEarlier, -, hApart⟩ := hDistinct
      have hBefore : ∀ group ∈ groups, (group.1 == key) = false := fun group hGroup =>
        BEq.symm_false (hApart group.1 (List.mem_map_of_mem hGroup) key (.head _))
      have hPairs : ungroup (groups ++ [(key, items)]) =
          ungroup groups ++ items.map (key, ·) := by simp [ungroup]
      rw [hPairs, groupByKey_append, ih ⟨hEarlier, hItems.1, hSelf.1⟩]
      exact foldl_addToGroup_group hItems.2 hSelf.2 hBefore

/-- Grouping puts every item into the group of its key and into no other one, leaves the items of a
key in their order and the keys in that of their first appearance; groups that are taken apart
come out the same when they are grouped again. -/
theorem pairs_grouped [PartialEquivBEq Key] (pairs : List (Key × Item)) :
    IsGrouping pairs (groupByKey pairs) ∧
      (∀ group ∈ groupByKey pairs, ∀ key, (group.1 == key) = true →
        group.2 = itemsUnder key pairs) ∧
      groupByKey (ungroup (groupByKey pairs)) = groupByKey pairs := by
  have h := isGrouping_groupByKey pairs
  exact ⟨h, fun group hGroup key hKey => h.items_eq hGroup hKey,
    groupByKey_ungroup h.toDistinctGroups⟩

/-- Pairs whose keys take turns: groups stand in the order of first keys, and pairs in order of
their keys are grouped alike. -/
theorem pairs_grouped_interleaved :
    PartialEquivBEq String ∧
      groupByKey [("b", 1), ("a", 2), ("b", 3), ("a", 2)] = [("b", [1, 3]), ("a", [2, 2])] ∧
      IsGrouping [("b", 1), ("a", 2), ("b", 3), ("a", 2)] [("b", [1, 3]), ("a", [2, 2])] ∧
      [2, 2] = itemsUnder "a" [("b", 1), ("a", 2), ("b", 3), ("a", 2)] ∧
      groupByKey [("b", 1), ("b", 3), ("a", 2), ("a", 2)] = [("b", [1, 3]), ("a", [2, 2])] := by
  have hGroups : groupByKey [("b", 1), ("a", 2), ("b", 3), ("a", 2)] =
      [("b", [1, 3]), ("a", [2, 2])] := by decide
  obtain ⟨hGrouping, hItems, hAgain⟩ := pairs_grouped [("b", 1), ("a", 2), ("b", 3), ("a", 2)]
  rw [hGroups] at hGrouping hItems hAgain
  exact ⟨inferInstance, hGroups, hGrouping, hItems ("a", [2, 2]) (by simp) "a" (by simp), hAgain⟩

-- Of equal keys the first one stays.
example : @groupByKey String Nat ⟨fun a b => a.length == b.length⟩
    [("ab", 1), ("c", 2), ("de", 3)] = [("ab", [1, 3]), ("c", [2])] := by decide

variable [LawfulBEq Key]

theorem nodup_eraseDups (keys : List Key) : keys.eraseDups.Nodup :=
  (pairwise_eraseDups keys).imp fun h => (beq_eq_false_iff_ne.1 h).symm

theorem length_itemsUnder (key : Key) (pairs : List (Key × Item)) :
    (itemsUnder key pairs).length = (pairs.map (·.1)).count key := by
  rw [itemsUnder, List.length_map, List.count, List.countP_map, List.countP_eq_length_filter]
  simp only [Function.comp_def, BEq.comm]

theorem mem_keys_groupByKey_iff (pairs : List (Key × Item)) (key : Key) :
    key ∈ (groupByKey pairs).map (·.1) ↔ key ∈ pairs.map (·.1) := by
  rw [(isGrouping_groupByKey pairs).keys_eq, List.mem_eraseDups]

/-- Keys are distinct just when no group holds more than one item. -/
theorem nodup_keys_iff (pairs : List (Key × Item)) :
    (pairs.map (·.1)).Nodup ↔ ∀ group ∈ groupByKey pairs, group.2.length ≤ 1 := by
  have h := isGrouping_groupByKey pairs
  have hLength : ∀ group ∈ groupByKey pairs,
      group.2.length = (pairs.map (·.1)).count group.1 := fun group hGroup => by
    rw [h.items_eq hGroup BEq.rfl, length_itemsUnder]
  rw [List.nodup_iff_count_le_one]
  constructor
  · intro hCount group hGroup
    exact hLength group hGroup ▸ hCount group.1
  · intro hGroups key
    by_cases hKey : key ∈ pairs.map (·.1)
    · obtain ⟨group, hGroup, rfl⟩ := List.mem_map.1 ((mem_keys_groupByKey_iff pairs key).2 hKey)
      exact hLength group hGroup ▸ hGroups group hGroup
    · rw [List.count_eq_zero_of_not_mem hKey]
      exact Nat.zero_le 1

end Groups

section Repeated

variable [DecidableEq Key]

/-- No item repeats one seen before exactly if the items are distinct and none of them was seen. -/
theorem firstRepeatedAfter_eq_none_iff (seen items : List Key) :
    firstRepeatedAfter seen items = none ↔ items.Nodup ∧ ∀ item ∈ items, item ∉ seen := by
  induction items generalizing seen with
  | nil => simp [firstRepeatedAfter]
  | cons item rest ih =>
      by_cases hSeen : item ∈ seen
      · simp [firstRepeatedAfter, hSeen]
      · simp [firstRepeatedAfter, hSeen, ih]
        grind

/-- An item is repeated unless all are distinct. -/
theorem firstRepeated_eq_none_iff (items : List Key) :
    firstRepeated items = none ↔ items.Nodup := by
  simp [firstRepeated, firstRepeatedAfter_eq_none_iff]

end Repeated

end Metagen
