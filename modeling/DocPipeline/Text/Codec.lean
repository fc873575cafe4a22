import Mathlib.Data.List.Sort
import DocPipeline.Text.JsonScan

/-!
# Values as JSON

A codec prints values of one type and reads values of another: what its reader makes of a
printed value, also after a detour through a store that keeps the values of a dictionary and
not the order of its keys. What has no text, an int of too many digits, is not printed. Codecs
of dictionaries are put together key by key, and a reader does not see the keys it does not
look up.
-/
namespace DocPipeline.Json

set_option autoImplicit false

variable {F α β γ δ : Type} {floats : Floats F}

/-! ## Strings of characters -/

def ofString (s : String) : Str := s.toList.map .char

/-- The characters of a string without surrogates. -/
def toText : Str → Option Text
  | [] => some []
  | .char c :: s => (toText s).map (c :: ·)
  | .surrogate _ :: _ => none

theorem toText_ofString (s : String) : toText (ofString s) = some s.toList := by
  unfold ofString
  induction s.toList with
  | nil => rfl
  | cons c t ih =>
    rw [List.map_cons, toText, ih]
    rfl

theorem ofString_injective {s t : String} (h : ofString s = ofString t) : s = t := by
  have htext := congrArg toText h
  rw [toText_ofString, toText_ofString] at htext
  exact String.toList_injective (Option.some.inj htext)

theorem unpaired_ofString (s : String) : Unpaired (ofString s) := by
  unfold ofString
  induction s.toList with
  | nil => exact List.isChain_nil
  | cons c t ih =>
    cases t with
    | nil => exact List.isChain_singleton _
    | cons d t =>
      refine List.isChain_cons_cons.mpr ⟨?_, ih⟩
      intro hhigh
      cases hhigh

/-! ## Stores -/

variable {takes : Json F → Prop}

/-- A store that takes a value takes its parts. -/
structure Parts (takes : Json F → Prop) : Prop where
  items : ∀ {items}, takes (.arr items) → ∀ v, v ∈ items → takes v
  members : ∀ {members}, takes (.obj members) → ∀ m, m ∈ members → takes m.2

theorem mem_stringsItems {items : List (Json F)} {v : Json F} (hv : v ∈ items) {s : Str} (hs : s ∈ v.strings) :
    s ∈ stringsItems items := by
  induction items with
  | nil => cases hv
  | cons v' items ih =>
    rw [stringsItems, List.mem_append]
    rcases List.mem_cons.mp hv with rfl | hv
    · exact .inl hs
    · exact .inr (ih hv)

/-- A store that takes some strings only. -/
theorem Parts.strings (ok : Str → Prop) : Parts fun v : Json F => ∀ s, s ∈ v.strings → ok s where
  items h _ hv s hs := h s (mem_stringsItems hv hs)
  members h m hm s hs := h s (mem_stringsMembers.mpr ⟨m, hm, .inr hs⟩)

/-- What a store of JSON values gives back of what it takes: the same values, the keys of a
dictionary in some order. Nothing is said of floats. -/
structure Rereads (takes : Json F → Prop) (f : Json F → Json F) : Prop extends Parts takes where
  null : f .null = .null
  bool : ∀ b, f (.bool b) = .bool b
  int : ∀ n, f (.int n) = .int n
  str : ∀ s, takes (.str s) → f (.str s) = .str s
  arr : ∀ items, takes (.arr items) → f (.arr items) = .arr (items.map f)
  obj : ∀ members, takes (.obj members) → (Json.obj members).Distinct →
    ∃ members', f (.obj members) = .obj members' ∧ ∀ key, members'.lookup key = (members.lookup key).map f
  distinct : ∀ v, takes v → v.Distinct → (f v).Distinct
  strings : ∀ v, takes v → v.Distinct → ∀ s, s ∈ (f v).strings → s ∈ v.strings

/-- A store of texts, which takes every value. -/
theorem Rereads.refl : Rereads (fun _ : Json F => True) fun v => v where
  items _ _ _ := trivial
  members _ _ _ := trivial
  null := rfl
  bool _ := rfl
  int _ := rfl
  str _ _ := rfl
  arr items _ := by rw [List.map_id']
  obj members _ _ := ⟨members, rfl, fun key => by rw [Option.map_id']⟩
  distinct _ _ h := h
  strings _ _ _ _ h := h

/-! A store that sorts keys. -/
section
variable (before : Str → Str → Bool)

def sortMembers (members : List (Str × Json F)) : List (Str × Json F) :=
  members.insertionSort fun m m' => before m.1 m'.1 = true

mutual
def sortKeys : Json F → Json F
  | .arr items => .arr (sortKeysItems items)
  | .obj members => .obj (sortMembers before (sortKeysMembers members))
  | .null => .null
  | .bool b => .bool b
  | .int n => .int n
  | .float x => .float x
  | .str s => .str s

def sortKeysItems : List (Json F) → List (Json F)
  | [] => []
  | v :: items => v.sortKeys :: sortKeysItems items

def sortKeysMembers : List (Str × Json F) → List (Str × Json F)
  | [] => []
  | (key, v) :: members => (key, v.sortKeys) :: sortKeysMembers members
end

theorem sortKeysItems_eq (items : List (Json F)) : sortKeysItems before items = items.map (sortKeys before) := by
  induction items with
  | nil => rfl
  | cons v items ih => rw [sortKeysItems, List.map_cons, ih]

theorem keys_sortKeysMembers (members : List (Str × Json F)) :
    (sortKeysMembers before members).map Prod.fst = members.map Prod.fst := by
  induction members with
  | nil => rfl
  | cons m members ih => rw [sortKeysMembers, List.map_cons, List.map_cons, ih]

theorem lookup_sortKeysMembers (members : List (Str × Json F)) (key : Str) :
    (sortKeysMembers before members).lookup key = (members.lookup key).map (sortKeys before) := by
  induction members with
  | nil => rfl
  | cons m members ih =>
    rw [sortKeysMembers, List.lookup_cons, List.lookup_cons]
    cases key == m.1
    · exact ih
    · rfl

theorem perm_sortMembers (members : List (Str × Json F)) : (sortMembers before members).Perm members :=
  List.perm_insertionSort _ members

/-- Distinct keys are looked up alike in any order. -/
theorem lookup_perm {members members' : List (Str × Json F)} (hperm : members.Perm members')
    (hkeys : (members.map Prod.fst).Nodup) (key : Str) : members.lookup key = members'.lookup key := by
  induction hperm with
  | nil => rfl
  | cons m _ ih => rw [List.lookup_cons, List.lookup_cons, ih (List.nodup_cons.mp hkeys).2]
  | swap m m' members =>
    rw [List.lookup_cons, List.lookup_cons, List.lookup_cons, List.lookup_cons]
    by_cases hm : key = m.1
    · have hne : (key == m'.1) = false := by
        refine beq_false_of_ne fun hm' => (List.nodup_cons.mp hkeys).1 ?_
        rw [← hm', hm]
        exact List.mem_cons_self
      rw [hne]
    · rw [beq_false_of_ne hm]
  | trans hfirst _ ih ih' =>
    rw [ih hkeys, ih' ((hfirst.map Prod.fst).nodup_iff.mp hkeys)]

theorem distinctMembers_iff {members : List (Str × Json F)} :
    DistinctMembers members ↔ ∀ m, m ∈ members → m.2.Distinct := by
  induction members with
  | nil => simp [DistinctMembers]
  | cons m members ih => simp [DistinctMembers, ih]

theorem distinct_sortMembers {members : List (Str × Json F)} (hkeys : (members.map Prod.fst).Nodup)
    (h : DistinctMembers members) : (Json.obj (sortMembers before members)).Distinct := by
  have hperm := perm_sortMembers before members
  exact ⟨(hperm.map Prod.fst).nodup_iff.mpr hkeys,
    distinctMembers_iff.mpr fun m hm => distinctMembers_iff.mp h m (hperm.mem_iff.mp hm)⟩

mutual
theorem distinct_sortKeys : ∀ v : Json F, v.Distinct → (sortKeys before v).Distinct
  | .arr items, h => distinct_sortKeysItems items h
  | .obj members, h => by
    refine distinct_sortMembers before ?_ (distinct_sortKeysMembers members h.2)
    rw [keys_sortKeysMembers]
    exact h.1
  | .null, h | .bool _, h | .int _, h | .float _, h | .str _, h => h

theorem distinct_sortKeysItems : ∀ items : List (Json F), DistinctItems items → DistinctItems (sortKeysItems before items)
  | [], h => h
  | v :: items, h => ⟨distinct_sortKeys v h.1, distinct_sortKeysItems items h.2⟩

theorem distinct_sortKeysMembers : ∀ members : List (Str × Json F),
    DistinctMembers members → DistinctMembers (sortKeysMembers before members)
  | [], h => h
  | (_, v) :: members, h => ⟨distinct_sortKeys v h.1, distinct_sortKeysMembers members h.2⟩
end

mutual
theorem strings_sortKeys : ∀ (v : Json F) (s : Str), s ∈ (sortKeys before v).strings → s ∈ v.strings
  | .arr items, s, h => strings_sortKeysItems items s h
  | .obj members, s, h => by
    refine strings_sortKeysMembers members s ?_
    obtain ⟨m, hm, hs⟩ := mem_stringsMembers.mp h
    exact mem_stringsMembers.mpr ⟨m, (perm_sortMembers before _).mem_iff.mp hm, hs⟩
  | .null, _, h | .bool _, _, h | .int _, _, h | .float _, _, h | .str _, _, h => h

theorem strings_sortKeysItems : ∀ (items : List (Json F)) (s : Str),
    s ∈ stringsItems (sortKeysItems before items) → s ∈ stringsItems items
  | [], _, h => h
  | v :: items, s, h =>
    List.mem_append.mpr ((List.mem_append.mp h).imp (strings_sortKeys v s) (strings_sortKeysItems items s))

theorem strings_sortKeysMembers : ∀ (members : List (Str × Json F)) (s : Str),
    s ∈ stringsMembers (sortKeysMembers before members) → s ∈ stringsMembers members
  | [], _, h => h
  | (_, v) :: members, s, h => by
    rcases List.mem_cons.mp h with rfl | h
    · exact List.mem_cons_self
    · exact List.mem_cons_of_mem _ (List.mem_append.mpr ((List.mem_append.mp h).imp (strings_sortKeys v s)
        (strings_sortKeysMembers members s)))
end

theorem Rereads.sorted (hparts : Parts takes) : Rereads takes (sortKeys before) where
  toParts := hparts
  null := rfl
  bool _ := rfl
  int _ := rfl
  str _ _ := rfl
  arr items _ := by rw [sortKeys, sortKeysItems_eq]
  obj members _ h := by
    refine ⟨_, rfl, fun key => ?_⟩
    rw [← lookup_sortKeysMembers]
    refine lookup_perm (perm_sortMembers before _) ?_ key
    rw [((perm_sortMembers before _).map Prod.fst).nodup_iff, keys_sortKeysMembers]
    exact h.1
  distinct v _ := distinct_sortKeys before v
  strings v _ _ := strings_sortKeys before v

end

/-! ## Codecs of values -/

/-- `value` is what the reader makes of a printed value. -/
structure Codec (F α β : Type) where
  encode : α → Option (Json F)
  decode : Json F → Option β
  value : α → β
  distinct : ∀ {a v}, encode a = some v → v.Distinct
  plain : ∀ {a v}, encode a = some v → ∀ s, s ∈ v.strings → Unpaired s
  reread : ∀ {takes f}, Rereads takes f → ∀ {a v}, encode a = some v → takes v → decode (f v) = some (value a)

namespace Codec

def str : Codec F String String where
  encode s := some (.str (ofString s))
  decode v :=
    match v with
    | .str s => (toText s).map String.ofList
    | _ => none
  value s := s
  distinct h := by
    cases h
    trivial
  plain h s hs := by
    cases h
    cases List.mem_singleton.mp hs
    exact unpaired_ofString _
  reread hf a v h hv := by
    cases h
    rw [hf.str _ hv]
    simp [toText_ofString]

def int : Codec F Int Int where
  encode z := if h : (Nat.digits 10 z.natAbs).length ≤ maxStrDigits then some (.int ⟨z, h⟩) else none
  decode v :=
    match v with
    | .int n => some n.val
    | _ => none
  value z := z
  distinct h := by
    split at h <;> cases h
    trivial
  plain h s hs := by
    split at h <;> cases h
    cases hs
  reread hf a v h _ := by
    split at h <;> cases h
    rw [hf.int]

def bool : Codec F Bool Bool where
  encode b := some (.bool b)
  decode v :=
    match v with
    | .bool b => some b
    | _ => none
  value b := b
  distinct h := by
    cases h
    trivial
  plain h s hs := by
    cases h
    cases hs
  reread hf a v h _ := by
    cases h
    rw [hf.bool]

/-- A float, for a key nobody reads. -/
def float : Codec F F Unit where
  encode x := some (.float x)
  decode _ := some ()
  value _ := ()
  distinct h := by
    cases h
    trivial
  plain h s hs := by
    cases h
    cases hs
  reread _ _ _ _ _ := rfl

/-- A codec of what stands for values; what stands for none is not printed, and what a value
stands for may be nothing. -/
def imap (c : Codec F α β) (print : γ → Option α) (read : β → Option δ) (value : γ → δ)
    (hread : ∀ g a, print g = some a → read (c.value a) = some (value g)) : Codec F γ δ where
  encode g := (print g).bind c.encode
  decode v := (c.decode v).bind read
  value := value
  distinct h := by
    obtain ⟨a, _, ha⟩ := Option.bind_eq_some_iff.mp h
    exact c.distinct ha
  plain h := by
    obtain ⟨a, _, ha⟩ := Option.bind_eq_some_iff.mp h
    exact c.plain ha
  reread hf g v h hv := by
    obtain ⟨a, hprint, ha⟩ := Option.bind_eq_some_iff.mp h
    rw [c.reread hf ha hv, Option.bind_some, hread g a hprint]

def nat : Codec F Nat Nat :=
  int.imap (fun n => some (Int.ofNat n)) (fun z => if 0 ≤ z then some z.toNat else none) (fun n => n) fun n a h => by
    cases h
    simp [int]

/-- `None` as null, which the codec itself does not read. -/
def nullable (c : Codec F α β) (hnull : c.decode .null = none) : Codec F (Option α) (Option β) where
  encode a := a.elim (some .null) c.encode
  decode v :=
    match v with
    | .null => some none
    | v => (c.decode v).map some
  value a := a.map c.value
  distinct {a v} h := by
    cases a with
    | none =>
      cases h
      trivial
    | some a => exact c.distinct h
  plain {a v} h := by
    cases a with
    | none =>
      cases h
      intro s hs
      cases hs
    | some a => exact c.plain h
  reread hf a v h hv := by
    cases a with
    | none =>
      cases h
      rw [hf.null]
      rfl
    | some a =>
      have hread := c.reread hf h hv
      split
      · next he =>
        rw [he, hnull] at hread
        cases hread
      · rw [hread]
        rfl

def encodeItems (c : Codec F α β) : List α → Option (List (Json F))
  | [] => some []
  | a :: as => (c.encode a).bind fun v => (encodeItems c as).map (v :: ·)

def decodeItems (c : Codec F α β) : List (Json F) → Option (List β)
  | [] => some []
  | v :: items => (c.decode v).bind fun b => (decodeItems c items).map (b :: ·)

theorem encodeItems_cons {c : Codec F α β} {a : α} {as : List α} {items : List (Json F)}
    (h : c.encodeItems (a :: as) = some items) :
    ∃ v rest, items = v :: rest ∧ c.encode a = some v ∧ c.encodeItems as = some rest := by
  obtain ⟨v, hv, h⟩ := Option.bind_eq_some_iff.mp h
  obtain ⟨rest, hrest, rfl⟩ := Option.map_eq_some_iff.mp h
  exact ⟨v, rest, rfl, hv, hrest⟩

theorem distinct_items {c : Codec F α β} {as : List α} {items : List (Json F)} (h : c.encodeItems as = some items) :
    DistinctItems items := by
  induction as generalizing items with
  | nil =>
    cases h
    trivial
  | cons a as ih =>
    obtain ⟨v, rest, rfl, hv, hrest⟩ := encodeItems_cons h
    exact ⟨c.distinct hv, ih hrest⟩

theorem plain_items {c : Codec F α β} {as : List α} {items : List (Json F)} (h : c.encodeItems as = some items) :
    ∀ s, s ∈ stringsItems items → Unpaired s := by
  induction as generalizing items with
  | nil =>
    cases h
    intro s hs
    cases hs
  | cons a as ih =>
    obtain ⟨v, rest, rfl, hv, hrest⟩ := encodeItems_cons h
    intro s hs
    exact (List.mem_append.mp hs).elim (c.plain hv s) (ih hrest s)

theorem reread_items {c : Codec F α β} {f : Json F → Json F} (hf : Rereads takes f) {as : List α} {items : List (Json F)}
    (h : c.encodeItems as = some items) (hitems : ∀ v, v ∈ items → takes v) :
    c.decodeItems (items.map f) = some (as.map c.value) := by
  induction as generalizing items with
  | nil =>
    cases h
    rfl
  | cons a as ih =>
    obtain ⟨v, rest, rfl, hv, hrest⟩ := encodeItems_cons h
    have hrestTakes : ∀ v, v ∈ rest → takes v := fun v' hv' => hitems v' (List.mem_cons_of_mem _ hv')
    rw [List.map_cons, decodeItems, c.reread hf hv (hitems v List.mem_cons_self), ih hrest hrestTakes]
    rfl

def list (c : Codec F α β) : Codec F (List α) (List β) where
  encode as := (c.encodeItems as).map .arr
  decode v :=
    match v with
    | .arr items => c.decodeItems items
    | _ => none
  value as := as.map c.value
  distinct h := by
    obtain ⟨items, hitems, rfl⟩ := Option.map_eq_some_iff.mp h
    exact distinct_items hitems
  plain h := by
    obtain ⟨items, hitems, rfl⟩ := Option.map_eq_some_iff.mp h
    exact plain_items hitems
  reread hf as v h hv := by
    obtain ⟨items, hitems, rfl⟩ := Option.map_eq_some_iff.mp h
    rw [hf.arr _ hv]
    exact reread_items hf hitems (hf.items hv)

@[simp] theorem str_value : (str : Codec F String String).value = id := rfl

@[simp] theorem int_value : (int : Codec F Int Int).value = id := rfl

@[simp] theorem bool_value : (bool : Codec F Bool Bool).value = id := rfl

@[simp] theorem nat_value : (nat : Codec F Nat Nat).value = id := rfl

@[simp] theorem list_value (c : Codec F α β) : c.list.value = List.map c.value := rfl

end Codec

/-! ## Codecs of dictionaries -/

/-- A dictionary with these keys. -/
def object (members : List (String × Json F)) : Json F := .obj (members.map fun m => (ofString m.1, m.2))

theorem lookup_object (members : List (String × Json F)) (key : String) :
    (members.map fun m => (ofString m.1, m.2)).lookup (ofString key) = members.lookup key := by
  induction members with
  | nil => rfl
  | cons m members ih =>
    rw [List.map_cons, List.lookup_cons, List.lookup_cons, ih]
    by_cases hkey : key = m.1
    · rw [hkey, beq_self_eq_true, beq_self_eq_true]
    · rw [beq_false_of_ne hkey, beq_false_of_ne fun he => hkey (ofString_injective he)]

theorem distinct_object {members : List (String × Json F)} (hkeys : (members.map Prod.fst).Nodup)
    (h : ∀ m, m ∈ members → m.2.Distinct) : (object members).Distinct := by
  constructor
  · rw [List.map_map]
    have hmap := hkeys.map_on fun s _ t _ he => ofString_injective he
    rwa [List.map_map] at hmap
  · clear hkeys
    induction members with
    | nil => trivial
    | cons m members ih => exact ⟨h m List.mem_cons_self, ih fun m' hm => h m' (List.mem_cons_of_mem _ hm)⟩

theorem plain_object {members : List (String × Json F)} (h : ∀ m, m ∈ members → ∀ s, s ∈ m.2.strings → Unpaired s) :
    ∀ s, s ∈ (object members).strings → Unpaired s := by
  unfold object strings
  induction members with
  | nil =>
    intro s hs
    cases hs
  | cons m members ih =>
    intro s hs
    rcases List.mem_cons.mp hs with rfl | hs
    · exact unpaired_ofString _
    · exact (List.mem_append.mp hs).elim (h m List.mem_cons_self s)
        (ih (fun m' hm => h m' (List.mem_cons_of_mem _ hm)) s)

/-- Part of a dictionary: what is printed under some of `keys`, and what is read from them. -/
structure Record (keys : List String) (F α β : Type) where
  nodup : keys.Nodup
  encode : α → Option (List (String × Json F))
  decode : (String → Option (Json F)) → Option β
  value : α → β
  within : ∀ {a members}, encode a = some members → (members.map Prod.fst).Sublist keys
  distinct : ∀ {a members}, encode a = some members → ∀ m, m ∈ members → m.2.Distinct
  plain : ∀ {a members}, encode a = some members → ∀ m, m ∈ members → ∀ s, s ∈ m.2.strings → Unpaired s
  reread : ∀ {takes f}, Rereads takes f → ∀ {a members}, encode a = some members → (∀ m, m ∈ members → takes m.2) →
    ∀ {look : String → Option (Json F)}, (∀ key, key ∈ keys → look key = (members.lookup key).map f) →
    decode look = some (value a)

namespace Record

variable {keys keys' : List String}

/-- No key at all. -/
def make (b : β) : Record [] F α β where
  nodup := List.nodup_nil
  encode _ := some []
  decode _ := some b
  value _ := b
  within h := by
    cases h
    exact List.Sublist.refl _
  distinct h m hm := by
    cases h
    cases hm
  plain h m hm := by
    cases h
    cases hm
  reread _ _ _ _ _ _ _ := rfl

/-- A key that is always there. -/
def field (key : String) (get : α → γ) (c : Codec F γ β) : Record [key] F α β where
  nodup := List.nodup_singleton key
  encode a := (c.encode (get a)).map fun v => [(key, v)]
  decode look := (look key).bind c.decode
  value a := c.value (get a)
  within h := by
    obtain ⟨v, _, rfl⟩ := Option.map_eq_some_iff.mp h
    exact List.Sublist.refl _
  distinct h m hm := by
    obtain ⟨v, hv, rfl⟩ := Option.map_eq_some_iff.mp h
    cases List.mem_singleton.mp hm
    exact c.distinct hv
  plain h m hm := by
    obtain ⟨v, hv, rfl⟩ := Option.map_eq_some_iff.mp h
    cases List.mem_singleton.mp hm
    exact c.plain hv
  reread hf a members h hmembers look hlook := by
    obtain ⟨v, hv, rfl⟩ := Option.map_eq_some_iff.mp h
    rw [hlook key (List.mem_singleton_self key), List.lookup_cons, beq_self_eq_true]
    exact c.reread hf hv (hmembers _ (List.mem_singleton_self _))

/-- A key that may be missing. -/
def optional (key : String) (get : α → Option γ) (c : Codec F γ β) : Record [key] F α (Option β) where
  nodup := List.nodup_singleton key
  encode a := (get a).elim (some []) fun g => (c.encode g).map fun v => [(key, v)]
  decode look := (look key).elim (some none) fun v => (c.decode v).map some
  value a := (get a).map c.value
  within {a _} h := by
    cases hg : get a with
    | none =>
      rw [hg] at h
      cases h
      exact List.nil_sublist _
    | some g =>
      rw [hg] at h
      exact (field key (fun g => g) c).within h
  distinct {a _} h := by
    cases hg : get a with
    | none =>
      rw [hg] at h
      cases h
      intro m hm
      cases hm
    | some g =>
      rw [hg] at h
      exact (field key (fun g => g) c).distinct h
  plain {a _} h := by
    cases hg : get a with
    | none =>
      rw [hg] at h
      cases h
      intro m hm
      cases hm
    | some g =>
      rw [hg] at h
      exact (field key (fun g => g) c).plain h
  reread hf a members h hmembers look hlook := by
    rw [hlook key (List.mem_singleton_self key)]
    cases hg : get a with
    | none =>
      rw [hg] at h
      cases h
      rfl
    | some g =>
      rw [hg] at h
      obtain ⟨v, hv, rfl⟩ := Option.map_eq_some_iff.mp h
      rw [List.lookup_cons, beq_self_eq_true]
      show (c.decode _).map some = _
      rw [c.reread hf hv (hmembers _ (List.mem_singleton_self _))]
      rfl

/-- What the reader does not look at. -/
def unread (r : Record keys F α β) : Record keys F α Unit where
  nodup := r.nodup
  encode := r.encode
  decode _ := some ()
  value _ := ()
  within := r.within
  distinct := r.distinct
  plain := r.plain
  reread _ _ _ _ _ _ _ := rfl

theorem lookup_missing {members : List (String × Json F)} {key : String} (h : key ∉ members.map Prod.fst) :
    members.lookup key = none := by
  refine List.lookup_eq_none_iff.mpr fun m hm => ?_
  rw [bne_iff_ne]
  rintro rfl
  exact h (List.mem_map_of_mem hm)

/-- One part and then another, under different keys. -/
def ap (r : Record keys F α (β → γ)) (r' : Record keys' F α β) (hkeys : ∀ key, key ∈ keys → key ∉ keys' := by decide) :
    Record (keys ++ keys') F α γ where
  nodup := r.nodup.append r'.nodup hkeys
  encode a := (r.encode a).bind fun members => (r'.encode a).map (members ++ ·)
  decode look := (r.decode look).bind fun make => (r'.decode look).map make
  value a := r.value a (r'.value a)
  within h := by
    obtain ⟨members, hm, h⟩ := Option.bind_eq_some_iff.mp h
    obtain ⟨members', hm', rfl⟩ := Option.map_eq_some_iff.mp h
    rw [List.map_append]
    exact (r.within hm).append (r'.within hm')
  distinct h m hm := by
    obtain ⟨members, hmem, h⟩ := Option.bind_eq_some_iff.mp h
    obtain ⟨members', hmem', rfl⟩ := Option.map_eq_some_iff.mp h
    exact (List.mem_append.mp hm).elim (r.distinct hmem m) (r'.distinct hmem' m)
  plain h m hm := by
    obtain ⟨members, hmem, h⟩ := Option.bind_eq_some_iff.mp h
    obtain ⟨members', hmem', rfl⟩ := Option.map_eq_some_iff.mp h
    exact (List.mem_append.mp hm).elim (r.plain hmem m) (r'.plain hmem' m)
  reread hf a _ h hmembers look hlook := by
    obtain ⟨members, hm, h⟩ := Option.bind_eq_some_iff.mp h
    obtain ⟨members', hm', rfl⟩ := Option.map_eq_some_iff.mp h
    rw [r.reread hf hm fun m hin => hmembers m (List.mem_append_left _ hin),
      r'.reread hf hm' fun m hin => hmembers m (List.mem_append_right _ hin)]
    · rfl
    · intro key hkey
      rw [hlook key (List.mem_append_right _ hkey), List.lookup_append, lookup_missing, Option.none_or]
      exact fun hin => hkeys key ((r.within hm).subset hin) hkey
    · intro key hkey
      have hmiss : members'.lookup key = none := lookup_missing fun hin => hkeys key hkey ((r'.within hm').subset hin)
      rw [hlook key (List.mem_append_left _ hkey), List.lookup_append, hmiss, Option.or_none]

@[simp] theorem make_value (b : β) (a : α) : (make b : Record [] F α β).value a = b := rfl

@[simp] theorem field_value (key : String) (get : α → γ) (c : Codec F γ β) (a : α) :
    (field key get c).value a = c.value (get a) := rfl

@[simp] theorem optional_value (key : String) (get : α → Option γ) (c : Codec F γ β) (a : α) :
    (optional key get c).value a = (get a).map c.value := rfl

@[simp] theorem ap_value (r : Record keys F α (β → γ)) (r' : Record keys' F α β)
    (hkeys : ∀ key, key ∈ keys → key ∉ keys') (a : α) : (r.ap r' hkeys).value a = r.value a (r'.value a) := rfl

/-- The keys of a value, if it is a dictionary. -/
def look : Json F → Option (String → Option (Json F))
  | .obj members => some fun key => members.lookup (ofString key)
  | _ => none

theorem distinct_of_encode (r : Record keys F α β) {a : α} {members : List (String × Json F)}
    (h : r.encode a = some members) :
    (object members).Distinct :=
  distinct_object ((r.within h).nodup r.nodup) (r.distinct h)

theorem look_reread {f : Json F → Json F} (hf : Rereads takes f) {members : List (String × Json F)}
    (htakes : takes (object members)) (h : (object members).Distinct) :
    ∃ read, look (f (object members)) = some read ∧ ∀ key, read key = (members.lookup key).map f := by
  obtain ⟨members', he, hlookup⟩ := hf.obj _ htakes h
  refine ⟨fun key => members'.lookup (ofString key), ?_, fun key => ?_⟩
  · rw [show object members = .obj _ from rfl, he]
    rfl
  · show members'.lookup (ofString key) = _
    rw [hlookup, lookup_object]

/-- The dictionary as a value. -/
def toCodec (r : Record keys F α β) : Codec F α β where
  encode a := (r.encode a).map object
  decode v := (look v).bind r.decode
  value := r.value
  distinct h := by
    obtain ⟨members, hmem, rfl⟩ := Option.map_eq_some_iff.mp h
    exact r.distinct_of_encode hmem
  plain h := by
    obtain ⟨members, hmem, rfl⟩ := Option.map_eq_some_iff.mp h
    exact plain_object (r.plain hmem)
  reread hf a v h hv := by
    obtain ⟨members, hmem, rfl⟩ := Option.map_eq_some_iff.mp h
    obtain ⟨read, hread, hlook⟩ := look_reread hf hv (r.distinct_of_encode hmem)
    rw [hread]
    exact r.reread hf hmem (fun m hm => hf.members hv _ (List.mem_map_of_mem hm)) fun key _ => hlook key

@[simp] theorem toCodec_value (r : Record keys F α β) : r.toCodec.value = r.value := rfl

/-- A dictionary that went through a store is read from its text as it was printed. -/
theorem read_text (r : Record keys F α β) {f : Json F → Json F} (hf : Rereads takes f) {a : α} {v : Json F}
    (h : r.toCodec.encode a = some v) (hv : takes v) :
    ((loads floats (dumps floats (f v))).toOption.bind r.toCodec.decode) = some (r.value a) := by
  have hdistinct := hf.distinct v hv (r.toCodec.distinct h)
  have hplain : ∀ s, s ∈ (f v).strings → Unpaired s := fun s hs =>
    r.toCodec.plain h s (hf.strings v hv (r.toCodec.distinct h) s hs)
  have hread := r.toCodec.reread hf h hv
  obtain ⟨members, hmem, rfl⟩ := Option.map_eq_some_iff.mp h
  obtain ⟨members', he, -⟩ := hf.obj _ hv (r.distinct_of_encode hmem)
  rw [show object members = .obj _ from rfl, he] at hdistinct hplain hread ⊢
  have hloads := loads_dumps floats (o := ⟨members', hdistinct⟩) hplain
  rw [hloads]
  exact hread

end Record
end DocPipeline.Json
