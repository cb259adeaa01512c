import ExternalStorage.Library.Sorting
import ExternalStorage.Model.Fingerprints

/-!
# Fingerprints up to the order of keys

Two bodies have one fingerprint exactly when they differ in the order of object keys only, at
whatever depth.  The sort decides nothing but the order of the members, so each object keeps
its keys and their values.
-/

namespace ExternalStorage.Catalog.Fingerprints

open ExternalStorage.Library.JsonTrees ExternalStorage.Library.Sorting
  ExternalStorage.Library.Table ExternalStorage.Model.Fingerprints

variable {ν : Type}

/-! ## Values -/

/-- Objects have each key once. -/
inductive DistinctKeys : JsonTree ν → Prop
  | null : DistinctKeys .null
  | bool (b : Bool) : DistinctKeys (.bool b)
  | num (n : ν) : DistinctKeys (.num n)
  | str (s : String) : DistinctKeys (.str s)
  | arr {items : List (JsonTree ν)} (each : ∀ v ∈ items, DistinctKeys v) : DistinctKeys (.arr items)
  | obj {members : List (String × JsonTree ν)} (keys : (members.map Prod.fst).Nodup)
      (each : ∀ m ∈ members, DistinctKeys m.2) : DistinctKeys (.obj members)

/-- Some object inside the value has the key. -/
inductive HasKey (key : String) : JsonTree ν → Prop
  | item {items : List (JsonTree ν)} {v : JsonTree ν} (mem : v ∈ items) (inner : HasKey key v) :
      HasKey key (.arr items)
  | own {members : List (String × JsonTree ν)} (mem : key ∈ members.map Prod.fst) :
      HasKey key (.obj members)
  | value {members : List (String × JsonTree ν)} {m : String × JsonTree ν} (mem : m ∈ members)
      (inner : HasKey key m.2) : HasKey key (.obj members)

/-- Equal but for the order of the keys of objects. -/
inductive SameUpToOrder : JsonTree ν → JsonTree ν → Prop
  | null : SameUpToOrder .null .null
  | bool (b : Bool) : SameUpToOrder (.bool b) (.bool b)
  | num (n : ν) : SameUpToOrder (.num n) (.num n)
  | str (s : String) : SameUpToOrder (.str s) (.str s)
  | arr {items items' : List (JsonTree ν)} (length : items.length = items'.length)
      (each : ∀ (i : Nat) v v', items[i]? = some v → items'[i]? = some v' → SameUpToOrder v v') :
      SameUpToOrder (.arr items) (.arr items')
  | obj {members members' : List (String × JsonTree ν)}
      (keys : ∀ key, key ∈ members.map Prod.fst ↔ key ∈ members'.map Prod.fst)
      (each : ∀ key v v', (key, v) ∈ members → (key, v') ∈ members' → SameUpToOrder v v') :
      SameUpToOrder (.obj members) (.obj members')

/-- The comparison is a strict total order of the keys in use. -/
structure StrictlyOrders (localeCompare : String → String → Int) (used : String → Prop) :
    Prop where
  equal : ∀ k k', used k → used k' → (localeCompare k k' = 0 ↔ k = k')
  swap : ∀ k k', used k → used k' → (localeCompare k k' < 0 ↔ 0 < localeCompare k' k)
  trans : ∀ k k' k'', used k → used k' → used k'' → localeCompare k k' < 0 →
    localeCompare k' k'' < 0 → localeCompare k k'' < 0

theorem SameUpToOrder.sameKind {a b : JsonTree ν} (h : SameUpToOrder a b) : SameKind a b := by
  cases h with
  | null => exact .null
  | bool b => exact .bool b
  | num n => exact .num n n
  | str s => exact .str s s
  | arr => exact .arr _ _
  | obj => exact .obj _ _

/-! ## Properties of an object -/

theorem ownProperties_perm (members : List (String × JsonTree ν)) :
    (ownProperties members).Perm members := by
  have hnone : (fun m : String × JsonTree ν => (arrayIndex? m.1).isNone) =
      fun m => !(arrayIndex? m.1).isSome := by
    funext m
    rw [Option.not_isSome]
  unfold ownProperties
  rw [hnone]
  exact ((List.mergeSort_perm _ _).append_right _).trans (List.filter_append_perm _ _)

theorem foldl_upsertOn_append {front back : List (String × JsonTree ν)}
    (hkeys : ((front ++ back).map Prod.fst).Nodup) :
    back.foldl (fun members e => upsertOn Prod.fst e (fun _ => e) members) front =
      front ++ back := by
  induction back generalizing front with
  | nil => rw [List.foldl_nil, List.append_nil]
  | cons e back ih =>
      have hnew : (front.any fun m => m.1 = e.1) = false := by
        rw [List.any_eq_false]
        intro m hm hkey
        rw [List.map_append, List.map_cons] at hkeys
        exact (List.nodup_append.mp hkeys).2.2 m.1 (List.mem_map_of_mem hm) e.1
          List.mem_cons_self (of_decide_eq_true hkey)
      have hupsert : upsertOn Prod.fst e (fun _ => e) front = front ++ [e] := by
        rw [upsertOn, if_neg (by rw [hnew]; decide)]
      rw [List.foldl_cons, hupsert, ih (by rwa [List.append_assoc, List.singleton_append]),
        List.append_assoc, List.singleton_append]

theorem fromEntries_eq {entries : List (String × JsonTree ν)}
    (hkeys : (entries.map Prod.fst).Nodup) :
    fromEntries entries = .obj (ownProperties entries) := by
  rw [fromEntries, foldl_upsertOn_append (by rwa [List.nil_append]), List.nil_append]

theorem fromEntries_perm {entries entries' : List (String × JsonTree ν)}
    (hkeys : (entries.map Prod.fst).Nodup) (hkeys' : (entries'.map Prod.fst).Nodup)
    (h : fromEntries entries = fromEntries entries') : entries.Perm entries' := by
  rw [fromEntries_eq hkeys, fromEntries_eq hkeys', JsonTree.obj.injEq] at h
  calc entries.Perm (ownProperties entries) := (ownProperties_perm entries).symm
    _ = ownProperties entries' := h
    List.Perm _ entries' := ownProperties_perm entries'

/-! ## Members with their values changed -/

section

variable {f : JsonTree ν → JsonTree ν} {members members' : List (String × JsonTree ν)}

/-- The members with `f` of their values. -/
def mapValues (f : JsonTree ν → JsonTree ν) (members : List (String × JsonTree ν)) :
    List (String × JsonTree ν) :=
  members.map fun m => (m.1, f m.2)

theorem keys_mapValues (f : JsonTree ν → JsonTree ν) (members : List (String × JsonTree ν)) :
    (mapValues f members).map Prod.fst = members.map Prod.fst := by
  rw [mapValues, List.map_map]
  rfl

theorem mem_mapValues {key : String} {w : JsonTree ν} :
    (key, w) ∈ mapValues f members ↔ ∃ v, (key, v) ∈ members ∧ f v = w := by
  simp only [mapValues, List.mem_map, Prod.mk.injEq, Prod.exists]
  constructor
  · rintro ⟨_, v, hv, rfl, rfl⟩
    exact ⟨v, hv, rfl⟩
  · rintro ⟨v, hv, rfl⟩
    exact ⟨key, v, hv, rfl, rfl⟩

theorem value_eq {key : String} {v w : JsonTree ν} (hkeys : (members.map Prod.fst).Nodup)
    (hv : (key, v) ∈ members) (hw : (key, w) ∈ members) : v = w :=
  congrArg Prod.snd (List.inj_on_of_nodup_map hkeys hv hw rfl)

theorem mapValues_perm_iff (hkeys : (members.map Prod.fst).Nodup)
    (hkeys' : (members'.map Prod.fst).Nodup) :
    (mapValues f members).Perm (mapValues f members') ↔
      (∀ key, key ∈ members.map Prod.fst ↔ key ∈ members'.map Prod.fst) ∧
      ∀ key v v', (key, v) ∈ members → (key, v') ∈ members' → f v = f v' := by
  constructor
  · intro h
    constructor
    · intro key
      have hmap := (h.map Prod.fst).mem_iff (a := key)
      rwa [keys_mapValues, keys_mapValues] at hmap
    · intro key v v' hv hv'
      obtain ⟨w, hw, hsame⟩ := mem_mapValues.mp (h.mem_iff.mpr (mem_mapValues.mpr ⟨v', hv', rfl⟩))
      rw [← hsame, value_eq hkeys hv hw]
  · rintro ⟨hsame, heach⟩
    have hnodup := List.Nodup.of_map Prod.fst ((keys_mapValues f members).symm ▸ hkeys)
    have hnodup' := List.Nodup.of_map Prod.fst ((keys_mapValues f members').symm ▸ hkeys')
    rw [List.perm_ext_iff_of_nodup hnodup hnodup']
    rintro ⟨key, w⟩
    rw [mem_mapValues, mem_mapValues]
    constructor
    · rintro ⟨v, hv, rfl⟩
      obtain ⟨⟨_, v'⟩, hv', rfl⟩ := List.mem_map.mp ((hsame key).mp (List.mem_map_of_mem hv))
      exact ⟨v', hv', (heach _ v v' hv hv').symm⟩
    · rintro ⟨v', hv', rfl⟩
      obtain ⟨⟨_, v⟩, hv, rfl⟩ := List.mem_map.mp ((hsame key).mpr (List.mem_map_of_mem hv'))
      exact ⟨v, hv, heach _ v v' hv hv'⟩

end

/-! ## The sort -/

section

variable {localeCompare : String → String → Int} {used : String → Prop}

def sortedMembers (localeCompare : String → String → Int) (members : List (String × JsonTree ν)) :
    List (String × JsonTree ν) :=
  mapValues (sortJson localeCompare) (members.mergeSort fun m n => localeCompare m.1 n.1 ≤ 0)

theorem sortedMembers_perm (localeCompare : String → String → Int)
    (members : List (String × JsonTree ν)) :
    (sortedMembers localeCompare members).Perm (mapValues (sortJson localeCompare) members) :=
  (List.mergeSort_perm _ _).map _

theorem keys_sortedMembers {members : List (String × JsonTree ν)}
    (hkeys : (members.map Prod.fst).Nodup) :
    ((sortedMembers localeCompare members).map Prod.fst).Nodup := by
  apply ((sortedMembers_perm localeCompare members).map Prod.fst).nodup_iff.mpr
  rwa [keys_mapValues]

theorem StrictlyOrders.le_iff (h : StrictlyOrders localeCompare used) {k k' : String}
    (hk : used k) (hk' : used k') : localeCompare k k' ≤ 0 ↔ k = k' ∨ localeCompare k k' < 0 := by
  rw [← h.equal k k' hk hk']
  omega

theorem sortedMembers_pairwise (h : StrictlyOrders localeCompare used)
    {members : List (String × JsonTree ν)} (hused : ∀ m ∈ members, used m.1)
    (hkeys : (members.map Prod.fst).Nodup) :
    (sortedMembers localeCompare members).Pairwise fun m n => localeCompare m.1 n.1 < 0 := by
  have hle : (members.mergeSort fun m n => localeCompare m.1 n.1 ≤ 0).Pairwise
      fun m n => decide (localeCompare m.1 n.1 ≤ 0) = true := by
    apply pairwise_mergeSort_of_mem
    · intro m hm n hn o ho hmn hno
      have hum := hused m hm
      have hun := hused n hn
      have huo := hused o ho
      rw [decide_eq_true_eq, h.le_iff hum hun] at hmn
      rw [decide_eq_true_eq, h.le_iff hun huo] at hno
      rw [decide_eq_true_eq, h.le_iff hum huo]
      rcases hmn with heq | hmn
      · rwa [heq]
      · rcases hno with heq | hno
        · exact .inr (heq ▸ hmn)
        · exact .inr (h.trans _ _ _ hum hun huo hmn hno)
    · intro m hm n hn
      have hswap := h.swap m.1 n.1 (hused m hm) (hused n hn)
      have hswap' := h.swap n.1 m.1 (hused n hn) (hused m hm)
      simp only [decide_eq_true_eq]
      omega
  have hne : (members.mergeSort fun m n => localeCompare m.1 n.1 ≤ 0).Pairwise
      fun m n => m.1 ≠ n.1 :=
    List.pairwise_map.mp (((List.mergeSort_perm _ _).map Prod.fst).nodup_iff.mpr hkeys)
  rw [sortedMembers, mapValues, List.pairwise_map]
  apply (hle.and hne).imp_of_mem
  rintro m n hm hn ⟨hmn, hdistinct⟩
  have hum := hused m (List.mem_mergeSort.mp hm)
  have hun := hused n (List.mem_mergeSort.mp hn)
  exact ((h.le_iff hum hun).mp (of_decide_eq_true hmn)).resolve_left hdistinct

theorem sortedMembers_eq_iff (h : StrictlyOrders localeCompare used)
    {members members' : List (String × JsonTree ν)} (hused : ∀ m ∈ members, used m.1)
    (hused' : ∀ m ∈ members', used m.1) (hkeys : (members.map Prod.fst).Nodup)
    (hkeys' : (members'.map Prod.fst).Nodup) :
    fromEntries (sortedMembers localeCompare members) =
        fromEntries (sortedMembers localeCompare members') ↔
      (mapValues (sortJson localeCompare) members).Perm
        (mapValues (sortJson localeCompare) members') := by
  constructor
  · intro heq
    have hperm := fromEntries_perm (keys_sortedMembers hkeys) (keys_sortedMembers hkeys') heq
    exact ((sortedMembers_perm localeCompare members).symm.trans hperm).trans
      (sortedMembers_perm localeCompare members')
  · intro hperm
    have hsorted : (sortedMembers localeCompare members).Perm
        (sortedMembers localeCompare members') :=
      ((sortedMembers_perm localeCompare members).trans hperm).trans
        (sortedMembers_perm localeCompare members').symm
    rw [hsorted.eq_of_pairwise ?_ (sortedMembers_pairwise h hused hkeys)
      (sortedMembers_pairwise h hused' hkeys')]
    intro m n hm hn hmn hnm
    have hkey : ∀ {members : List (String × JsonTree ν)} {m}, (∀ m ∈ members, used m.1) →
        m ∈ sortedMembers localeCompare members → used m.1 := by
      intro members m hused hm
      have hmap := List.mem_map_of_mem (f := Prod.fst)
        ((sortedMembers_perm localeCompare members).mem_iff.mp hm)
      rw [keys_mapValues] at hmap
      obtain ⟨m', hm', hfst⟩ := List.mem_map.mp hmap
      exact hfst ▸ hused m' hm'
    have hswap := h.swap m.1 n.1 (hkey hused hm) (hkey hused' hn)
    omega

theorem sortJson_members (localeCompare : String → String → Int)
    (members : List (String × JsonTree ν)) :
    sortJson localeCompare (.obj members) = fromEntries (sortedMembers localeCompare members) :=
  sortJson_obj localeCompare members

theorem sortJson_null : sortJson localeCompare (.null : JsonTree ν) = .null := by
  rw [sortJson] <;> simp

theorem sortJson_bool (b : Bool) : sortJson localeCompare (.bool b : JsonTree ν) = .bool b := by
  rw [sortJson] <;> simp

theorem sortJson_num (n : ν) : sortJson localeCompare (.num n) = .num n := by
  rw [sortJson] <;> simp

theorem sortJson_str (s : String) : sortJson localeCompare (.str s : JsonTree ν) = .str s := by
  rw [sortJson] <;> simp

theorem kind_sortJson (localeCompare : String → String → Int) (v : JsonTree ν) :
    kind (sortJson localeCompare v) = kind v := by
  match v with
  | .null => rw [sortJson_null]
  | .bool b => rw [sortJson_bool]
  | .num n => rw [sortJson_num]
  | .str s => rw [sortJson_str]
  | .arr items => rw [sortJson, kind, kind]
  | .obj members => rw [sortJson_members, fromEntries, kind, kind]

theorem distinctKeys_arr {items : List (JsonTree ν)} :
    DistinctKeys (.arr items) ↔ ∀ v ∈ items, DistinctKeys v :=
  ⟨fun | .arr each => each, .arr⟩

theorem distinctKeys_obj {members : List (String × JsonTree ν)} :
    DistinctKeys (.obj members) ↔
      (members.map Prod.fst).Nodup ∧ ∀ m ∈ members, DistinctKeys m.2 :=
  ⟨fun | .obj keys each => ⟨keys, each⟩, fun h => .obj h.1 h.2⟩

theorem sameUpToOrder_arr {items items' : List (JsonTree ν)} :
    SameUpToOrder (.arr items) (.arr items') ↔ items.length = items'.length ∧
      ∀ (i : Nat) v v', items[i]? = some v → items'[i]? = some v' → SameUpToOrder v v' :=
  ⟨fun | .arr length each => ⟨length, each⟩, fun h => .arr h.1 h.2⟩

theorem sameUpToOrder_obj {members members' : List (String × JsonTree ν)} :
    SameUpToOrder (.obj members) (.obj members') ↔
      (∀ key, key ∈ members.map Prod.fst ↔ key ∈ members'.map Prod.fst) ∧
      ∀ key v v', (key, v) ∈ members → (key, v') ∈ members' → SameUpToOrder v v' :=
  ⟨fun | .obj keys each => ⟨keys, each⟩, fun h => .obj h.1 h.2⟩

theorem map_eq_map_iff {α β : Type} {f : α → β} {xs ys : List α} :
    xs.map f = ys.map f ↔ xs.length = ys.length ∧
      ∀ (i : Nat) x y, xs[i]? = some x → ys[i]? = some y → f x = f y := by
  constructor
  · intro h
    refine ⟨?_, ?_⟩
    · rw [← List.length_map f, h, List.length_map]
    · intro i x y hx hy
      have hi := congrArg (fun zs => zs[i]?) h
      simpa [hx, hy] using hi
  · rintro ⟨hlength, heach⟩
    apply List.ext_getElem? fun i => ?_
    rw [List.getElem?_map, List.getElem?_map]
    cases hx : xs[i]? with
    | none =>
        rw [List.getElem?_eq_none (hlength ▸ List.getElem?_eq_none_iff.mp hx)]
    | some x =>
        obtain ⟨hi, -⟩ := List.getElem?_eq_some_iff.mp hx
        have hy := List.getElem?_eq_getElem (hlength ▸ hi)
        rw [hy, Option.map_some, Option.map_some, heach i x _ hx hy]

/-- Neither side of the claim holds of values of different kinds. -/
theorem iff_of_sameKind {a b : JsonTree ν}
    (h : SameKind a b →
      (sortJson localeCompare a = sortJson localeCompare b ↔ SameUpToOrder a b)) :
    sortJson localeCompare a = sortJson localeCompare b ↔ SameUpToOrder a b := by
  constructor
  · intro heq
    apply (h (sameKind_of_kind _)).mp heq
    rw [← kind_sortJson localeCompare a, heq, kind_sortJson]
  · intro hsame
    exact (h hsame.sameKind).mpr hsame

theorem sortJson_eq_iff (h : StrictlyOrders localeCompare used) {a b : JsonTree ν}
    (ha : DistinctKeys a) (hb : DistinctKeys b) (hused : ∀ key, HasKey key a → used key)
    (hused' : ∀ key, HasKey key b → used key) :
    sortJson localeCompare a = sortJson localeCompare b ↔ SameUpToOrder a b := by
  induction a using JsonTree.nested generalizing b with
  | null =>
      apply iff_of_sameKind
      intro hkind
      cases hkind with
      | null => exact iff_of_true rfl .null
  | bool v =>
      apply iff_of_sameKind
      intro hkind
      cases hkind with
      | bool => exact iff_of_true rfl (.bool v)
  | num n =>
      apply iff_of_sameKind
      intro hkind
      cases hkind with
      | num _ n' =>
          rw [sortJson_num, sortJson_num, JsonTree.num.injEq]
          exact ⟨fun heq => heq ▸ .num n, fun | .num _ => rfl⟩
  | str text =>
      apply iff_of_sameKind
      intro hkind
      cases hkind with
      | str _ text' =>
          rw [sortJson_str, sortJson_str, JsonTree.str.injEq]
          exact ⟨fun heq => heq ▸ .str text, fun | .str _ => rfl⟩
  | arr items ih =>
      apply iff_of_sameKind
      intro hkind
      cases hkind with
      | arr _ items' =>
          rw [distinctKeys_arr] at ha hb
          rw [sortJson, sortJson, JsonTree.arr.injEq, map_eq_map_iff, sameUpToOrder_arr]
          apply and_congr_right fun _ => ?_
          have hitem : ∀ v ∈ items, ∀ v' ∈ items',
              (sortJson localeCompare v = sortJson localeCompare v' ↔ SameUpToOrder v v') :=
            fun v hv v' hv' => ih v hv (ha v hv) (hb v' hv')
              (fun key hkey => hused key (.item hv hkey))
              (fun key hkey => hused' key (.item hv' hkey))
          constructor
          · intro heach i v v' hv hv'
            exact (hitem v (List.mem_of_getElem? hv) v' (List.mem_of_getElem? hv')).mp
              (heach i v v' hv hv')
          · intro heach i v v' hv hv'
            exact (hitem v (List.mem_of_getElem? hv) v' (List.mem_of_getElem? hv')).mpr
              (heach i v v' hv hv')
  | obj members ih =>
      apply iff_of_sameKind
      intro hkind
      cases hkind with
      | obj _ members' =>
          obtain ⟨hkeys, hvalues⟩ := distinctKeys_obj.mp ha
          obtain ⟨hkeys', hvalues'⟩ := distinctKeys_obj.mp hb
          have hmembers : ∀ m ∈ members, used m.1 := fun m hm =>
            hused m.1 (.own (List.mem_map_of_mem hm))
          have hmembers' : ∀ m ∈ members', used m.1 := fun m hm =>
            hused' m.1 (.own (List.mem_map_of_mem hm))
          have hvalue : ∀ key v v', (key, v) ∈ members → (key, v') ∈ members' →
              (sortJson localeCompare v = sortJson localeCompare v' ↔ SameUpToOrder v v') :=
            fun key v v' hv hv' => ih (key, v) hv (hvalues _ hv) (hvalues' _ hv')
              (fun key hkey => hused key (.value hv hkey))
              (fun key hkey => hused' key (.value hv' hkey))
          rw [sortJson_members, sortJson_members,
            sortedMembers_eq_iff h hmembers hmembers' hkeys hkeys',
            mapValues_perm_iff hkeys hkeys', sameUpToOrder_obj]
          apply and_congr_right fun _ => ?_
          constructor
          · intro heach key v v' hv hv'
            exact (hvalue key v v' hv hv').mp (heach key v v' hv hv')
          · intro heach key v v' hv hv'
            exact (hvalue key v v' hv hv').mpr (heach key v v' hv hv')

end

/-- Bodies have one fingerprint exactly when they are equal up to the order of the keys of
their objects, at every depth.  `number` writes numbers as `JSON.stringify` does. -/
theorem stable_fingerprint_canonical {number : ν → List Char} (hnumber : NumberText number)
    {localeCompare : String → String → Int} {a b : JsonTree ν} (ha : DistinctKeys a)
    (hb : DistinctKeys b)
    (horder : StrictlyOrders localeCompare fun key => HasKey key a ∨ HasKey key b) :
    stableFingerprint localeCompare number a = stableFingerprint localeCompare number b ↔
      SameUpToOrder a b := by
  rw [← sortJson_eq_iff horder ha hb (fun _ => .inl) (fun _ => .inr)]
  constructor
  · intro h
    exact text_injective hnumber (String.ofList_injective h)
  · intro h
    rw [stableFingerprint, stableFingerprint, h]

def compareCodes (k k' : String) : Int := if k < k' then -1 else if k = k' then 0 else 1

theorem compareCodes_strictlyOrders (used : String → Prop) : StrictlyOrders compareCodes used where
  equal k k' _ _ := by
    unfold compareCodes
    grind
  swap k k' _ _ := by
    unfold compareCodes
    grind
  trans k k' k'' _ _ _ := by
    unfold compareCodes
    grind

def nestedBody (id : Int) : JsonTree Int :=
  .obj [("code", .str "sums"), ("mirrors", .arr [.obj [("id", .num id), ("live", .bool true)]])]

def reorderedBody (id : Int) : JsonTree Int :=
  .obj [("mirrors", .arr [.obj [("live", .bool true), ("id", .num id)]]), ("code", .str "sums")]

theorem sameUpToOrder_nested (id id' : Int) :
    SameUpToOrder (nestedBody id) (reorderedBody id') ↔ id = id' := by
  have hnum : SameUpToOrder (.num id) (.num id') ↔ id = id' :=
    ⟨fun | .num _ => rfl, fun h => h ▸ .num id⟩
  have hobject : SameUpToOrder (.obj [("id", .num id), ("live", .bool true)])
      (.obj [("live", .bool true), ("id", .num id')]) ↔ id = id' := by
    rw [sameUpToOrder_obj]
    constructor
    · rintro ⟨-, heach⟩
      exact hnum.mp (heach "id" _ _ List.mem_cons_self (List.mem_cons_of_mem _ List.mem_cons_self))
    · intro h
      refine ⟨by simp [or_comm], ?_⟩
      rintro key v v' hv hv'
      simp only [List.mem_cons, Prod.mk.injEq, List.not_mem_nil, or_false] at hv hv'
      rcases hv with ⟨rfl, rfl⟩ | ⟨rfl, rfl⟩
      · obtain ⟨hkey, -⟩ | ⟨-, rfl⟩ := hv'
        · exact absurd hkey (by decide)
        · exact hnum.mpr h
      · obtain ⟨-, rfl⟩ | ⟨hkey, -⟩ := hv'
        · exact .bool true
        · exact absurd hkey (by decide)
  rw [nestedBody, reorderedBody, sameUpToOrder_obj, ← hobject]
  constructor
  · rintro ⟨-, heach⟩
    have harr := heach "mirrors" _ _ (List.mem_cons_of_mem _ List.mem_cons_self) List.mem_cons_self
    exact (sameUpToOrder_arr.mp harr).2 0 _ _ rfl rfl
  · intro h
    refine ⟨by simp [or_comm], ?_⟩
    rintro key v v' hv hv'
    simp only [List.mem_cons, Prod.mk.injEq, List.not_mem_nil, or_false] at hv hv'
    rcases hv with ⟨rfl, rfl⟩ | ⟨rfl, rfl⟩
    · obtain ⟨hkey, -⟩ | ⟨-, rfl⟩ := hv'
      · exact absurd hkey (by decide)
      · exact .str "sums"
    · obtain ⟨-, rfl⟩ | ⟨hkey, -⟩ := hv'
      · refine sameUpToOrder_arr.mpr ⟨rfl, ?_⟩
        rintro (_ | i) v v' hv hv'
        · obtain rfl := Option.some.inj hv
          obtain rfl := Option.some.inj hv'
          exact h
        · cases hv
      · exact absurd hkey (by decide)

theorem stable_fingerprint_canonical_nested :
    stableFingerprint compareCodes Library.Json.decimal (nestedBody 7) =
        stableFingerprint compareCodes Library.Json.decimal (reorderedBody 7) ∧
      stableFingerprint compareCodes Library.Json.decimal (nestedBody 7) ≠
        stableFingerprint compareCodes Library.Json.decimal (reorderedBody 8) := by
  have hnested : ∀ id, DistinctKeys (nestedBody id) := by
    intro id
    simp [nestedBody, distinctKeys_obj, distinctKeys_arr, DistinctKeys.str, DistinctKeys.num,
      DistinctKeys.bool]
  have hreordered : ∀ id, DistinctKeys (reorderedBody id) := by
    intro id
    simp [reorderedBody, distinctKeys_obj, distinctKeys_arr, DistinctKeys.str, DistinctKeys.num,
      DistinctKeys.bool]
  constructor
  · rw [stable_fingerprint_canonical numberText_decimal (hnested 7) (hreordered 7)
      (compareCodes_strictlyOrders _), sameUpToOrder_nested]
  · rw [Ne, stable_fingerprint_canonical numberText_decimal (hnested 7) (hreordered 8)
      (compareCodes_strictlyOrders _), sameUpToOrder_nested]
    decide

end ExternalStorage.Catalog.Fingerprints
