/-
TextTemplate.Proofs.Mappings — the same values in pairs, maps and objects.

Where a name has several values it is the kind of the lookup that says which
counts: of pairs the first, of a map the one put in last, of layers the one on
top. What is known of a map is only that a value put in takes the place of
the one its key had (`Mapping`). So a map is the pairs it was made of, read
from the last to the first (`Mapping.lookup_ofList`), and so are the members
of an object whose values are strings.

Turning lists around and putting layers over one another then turn one kind
into another, and templates render the same under either (`kinds_agree`).
-/
import TextTemplate.Proofs.JsonObject
import TextTemplate.Proofs.Values

namespace TextTemplate

theorem lookup_cons_eq_ite {α : Type} (key : String) (value : α) (rest : List (String × α))
    (name : String) :
    ((key, value) :: rest).lookup name = if name = key then some value else rest.lookup name := by
  rw [List.lookup_cons]
  by_cases h : name = key
  · rw [if_pos h, beq_iff_eq.2 h]
  · rw [if_neg h, beq_false_of_ne h]

/-! ## Maps in which the last value of a key counts -/

/-- A kind of map from names to texts. A text that is put in takes the place
of the one its key had, and no other key's. -/
structure Mapping (M : Type) where
  empty : M
  insert : M → String → String → M
  get : M → String → Option String
  get_empty : ∀ name, get empty name = none
  get_insert : ∀ map key value name,
    get (insert map key value) name = if name = key then some value else get map name

namespace Mapping

variable {M : Type} (kind : Mapping M)

/-- Put in entries one after the other. -/
def insertAll (map : M) (entries : List (String × String)) : M :=
  entries.foldl (fun map entry => kind.insert map entry.1 entry.2) map

theorem get_insertAll (map : M) (entries : List (String × String)) (name : String) :
    kind.get (kind.insertAll map entries) name =
      (entries.reverse.lookup name).or (kind.get map name) := by
  induction entries generalizing map with
  | nil => rfl
  | cons entry entries ih =>
    obtain ⟨key, value⟩ := entry
    -- the entry put in first stands last in the reversed list
    have hfirst : ([(key, value)].lookup name).or (kind.get map name) =
        kind.get (kind.insert map key value) name := by
      rw [kind.get_insert, lookup_cons_eq_ite]
      split <;> rfl
    rw [List.reverse_cons, List.lookup_append, Option.or_assoc, hfirst]
    exact ih (kind.insert map key value)

/-- The map of these entries. -/
def ofList (entries : List (String × String)) : M :=
  kind.insertAll kind.empty entries

def lookup {m : Type → Type} [Monad m] (map : M) : Lookup m :=
  .ofFunction (kind.get map)

/-- In a map made of entries the last with a key counts. -/
theorem lookup_ofList {m : Type → Type} [Monad m] (entries : List (String × String)) :
    (kind.lookup (kind.ofList entries) : Lookup m) = .ofPairs entries.reverse := by
  have hget : kind.get (kind.ofList entries) = fun name => entries.reverse.lookup name := by
    funext name
    rw [ofList, get_insertAll, kind.get_empty, Option.or_none]
  rw [lookup, hget]
  rfl

/-- Whatever puts in entries from the first one on puts in all of them. -/
theorem eq_insertAll (insertMany : M → List (String × String) → M)
    (hnil : ∀ map, insertMany map [] = map)
    (hcons : ∀ map key value rest,
      insertMany map ((key, value) :: rest) = insertMany (kind.insert map key value) rest)
    (map : M) (entries : List (String × String)) :
    insertMany map entries = kind.insertAll map entries := by
  induction entries generalizing map with
  | nil => exact hnil map
  | cons entry entries ih => exact (hcons map entry.1 entry.2 entries).trans (ih _)

end Mapping

/-! ## The kinds there are -/

def hashMapping : Mapping (Std.HashMap String String) where
  empty := ∅
  insert map key value := map.insert key value
  get map name := map[name]?
  get_empty name := Std.HashMap.getElem?_empty
  get_insert map key value name := by
    rw [Std.HashMap.getElem?_insert]
    exact if_congr (by rw [beq_iff_eq, eq_comm]) rfl rfl

def treeMapping : Mapping (Std.TreeMap String String) where
  empty := ∅
  insert map key value := map.insert key value
  get map name := map[name]?
  get_empty name := Std.TreeMap.getElem?_emptyc
  get_insert map key value name := by
    rw [Std.TreeMap.getElem?_insert]
    exact if_congr (by rw [Std.LawfulEqCmp.compare_eq_iff_eq, eq_comm]) rfl rfl

theorem Json.Members.lookup_insert (members : Members) (key : String) (value : Value)
    (name : String) :
    (members.insert key value).lookup name =
      if name = key then some value else members.lookup name := by
  induction members with
  | nil => rw [Members.insert, lookup_cons_eq_ite]
  | cons first rest ih =>
    obtain ⟨k, v⟩ := first
    unfold Members.insert
    rw [lookup_cons_eq_ite k v]
    split
    · rw [lookup_cons_eq_ite, lookup_cons_eq_ite]
    · split
      · next hkey =>
        rw [lookup_cons_eq_ite, hkey]
        split <;> rfl
      · next hkey =>
        rw [lookup_cons_eq_ite, ih]
        -- the first key cannot be asked for and put in at once
        by_cases hname : name = k
        · rw [if_pos hname, if_neg (by rw [hname]; exact Ne.symm hkey), if_pos hname]
        · rw [if_neg hname, if_neg hname]

/-- The members of a JSON object, of which the ones that are put in are
strings. -/
def memberMapping : Mapping Json.Members where
  empty := []
  insert members key value := members.insert key (.text value)
  get members name := (members.lookup name).map Lookup.textOf
  get_empty name := rfl
  get_insert members key value name := by
    rw [Json.Members.lookup_insert]
    split <;> rfl

theorem hashMap_ofList (entries : List (String × String)) :
    Std.HashMap.ofList entries = hashMapping.ofList entries := by
  rw [Std.HashMap.ofList_eq_insertMany_empty]
  exact hashMapping.eq_insertAll (fun map rest => map.insertMany rest)
    (fun _ => Std.HashMap.insertMany_nil) (fun _ _ _ _ => Std.HashMap.insertMany_cons) ∅ entries

theorem treeMap_ofList (entries : List (String × String)) :
    Std.TreeMap.ofList entries = treeMapping.ofList entries := by
  rw [Std.TreeMap.ofList_eq_insertMany_empty]
  exact treeMapping.eq_insertAll (fun map rest => map.insertMany rest)
    (fun _ => Std.TreeMap.insertMany_nil) (fun _ _ _ _ => Std.TreeMap.insertMany_cons) ∅ entries

theorem members_ofList (entries : List (String × String)) :
    Json.Members.ofList (Json.textMembers entries) = memberMapping.ofList entries :=
  List.foldl_map

namespace Lookup

variable {m : Type → Type} [Monad m]

/-! ## What they all come to -/

theorem ofHashMap_ofList (entries : List (String × String)) :
    (ofHashMap (.ofList entries) : Lookup m) = ofPairs entries.reverse := by
  rw [hashMap_ofList]
  exact hashMapping.lookup_ofList entries

theorem ofTreeMap_ofList (entries : List (String × String)) :
    (ofTreeMap (.ofList entries) : Lookup m) = ofPairs entries.reverse := by
  rw [treeMap_ofList]
  exact treeMapping.lookup_ofList entries

theorem ofMembers_ofList (entries : List (String × String)) :
    (ofMembers (.ofList (Json.textMembers entries)) : Lookup m) = ofPairs entries.reverse := by
  rw [members_ofList]
  exact memberMapping.lookup_ofList entries

/-- Of two lists the first is on top. -/
theorem ofPairs_append [LawfulMonad m] (a b : List (String × String)) :
    (ofPairs (a ++ b) : Lookup m) = (ofPairs a).orElse (ofPairs b) := by
  funext name
  unfold ofPairs
  rw [orElse_ofFunction, ofFunction, List.lookup_append]
  cases a.lookup name <;> rfl

/-! ## Lookups that are the same -/

/-- Two lookups give the same answers, and templates the same texts. -/
structure Agree [MonadLog m] (a b : Lookup m) : Prop where
  answers : ∀ name, a name = b name
  renders : ∀ (t : Template) (options : Options), t.render a options = t.render b options
  fills : ∀ t : Template, t.renderPartial a = t.renderPartial b

theorem Agree.of_eq [MonadLog m] {a b : Lookup m} (h : a = b) : Agree a b := by
  subst h
  exact ⟨fun _ => rfl, fun _ _ => rfl, fun _ => rfl⟩

/-- **The kinds of lookups agree**: pairs with the maps into which the pairs
were put from the last to the first; the members of a JSON object, in every
document that has the pairs as its members, with the maps into which they were
put in order; and where pairs or entries are in two parts, with one part over
the other. Of pairs the first part is on top, of maps the second. -/
theorem kinds_agree [LawfulMonad m] [MonadLog m] :
    (∀ pairs : List (String × String),
      Agree (m := m) (ofPairs pairs) (ofHashMap (.ofList pairs.reverse)) ∧
      Agree (m := m) (ofPairs pairs) (ofTreeMap (.ofList pairs.reverse))) ∧
    (∀ pairs : List (String × String),
      (∃ document, Json.HoldsObject document pairs) ∧
      ∀ document, Json.HoldsObject document pairs →
        ∃ value members, Json.Value.parse document = .ok value ∧
          Json.Members.parse document = .ok members ∧
          Agree (m := m) (ofJson value) (ofHashMap (.ofList pairs)) ∧
          Agree (m := m) (ofJson value) (ofTreeMap (.ofList pairs)) ∧
          Agree (m := m) (ofMembers members) (ofHashMap (.ofList pairs)) ∧
          Agree (m := m) (ofMembers members) (ofTreeMap (.ofList pairs))) ∧
    ∀ a b : List (String × String),
      Agree (m := m) (ofPairs (a ++ b)) ((ofPairs a).orElse (ofPairs b)) ∧
      Agree (m := m) (ofHashMap (.ofList (a ++ b)))
        ((ofHashMap (.ofList b)).orElse (ofHashMap (.ofList a))) ∧
      Agree (m := m) (ofTreeMap (.ofList (a ++ b)))
        ((ofTreeMap (.ofList b)).orElse (ofTreeMap (.ofList a))) := by
  refine ⟨?pairs, ?objects, ?parts⟩
  case pairs =>
    intro pairs
    rw [ofHashMap_ofList, ofTreeMap_ofList, List.reverse_reverse]
    exact ⟨.of_eq rfl, .of_eq rfl⟩
  case objects =>
    intro pairs
    refine ⟨⟨_, Json.holdsObject_write pairs⟩, ?_⟩
    intro document hdocument
    obtain ⟨hvalue, hmembers⟩ := hdocument.parse
    refine ⟨_, _, hvalue, hmembers, ?_⟩
    rw [ofJson, ofMembers_ofList, ofHashMap_ofList, ofTreeMap_ofList]
    exact ⟨.of_eq rfl, .of_eq rfl, .of_eq rfl, .of_eq rfl⟩
  case parts =>
    intro a b
    simp only [ofHashMap_ofList, ofTreeMap_ofList, List.reverse_append, ofPairs_append]
    exact ⟨.of_eq rfl, .of_eq rfl, .of_eq rfl⟩

/-- A key that stands there twice, the second time escaped, is the first of
the pairs and the last of the members. -/
theorem kinds_agree_repeated :
    ∃ value,
      Json.Value.parse "\x7b\"a\" : \"1\",\"b\":\"2\", \"\\u0061\":\"3\"\x7d" = .ok value ∧
      Id.run (ofJson value "a") = some "3" ∧
      Id.run (ofPairs [("a", "1"), ("b", "2"), ("a", "3")] "a") = some "1" := by
  let pairs := [("a", "1"), ("b", "2"), ("a", "3")]
  have hspace : ∀ c ∈ [' '], Json.Reader.isBlank c := List.forall_mem_singleton.2 rfl
  have hplain (text : List Char) := Json.Text.spells_flatMap_writeChar text
  have hunit : Json.Text.IsCodeUnit ['0', '0', '6', '1'] 97 :=
    ⟨0, 0, 6, 1, .cons ⟨by decide, by decide⟩ (.cons ⟨by decide, by decide⟩
      (.cons ⟨by decide, by decide⟩ (.cons ⟨by decide, by decide⟩ .nil))), rfl⟩
  have hunits : List.Forall₂ Json.Text.IsCodeUnit [['0', '0', '6', '1']] (Json.Text.units 'a') :=
    .cons hunit .nil
  have hescaped : Json.Text.Spells ['\\', 'u', '0', '0', '6', '1'] ['a'] :=
    .cons (.escaped hunits) .nil
  have hfirst : Json.SpellsMember "\"a\" : \"1\"".toList ("a", "1") :=
    ⟨['a'], [' '], [' '], ['1'], hplain ['a'], hspace, hspace, hplain ['1'], rfl⟩
  have hsecond : Json.SpellsMember "\"b\":\"2\"".toList ("b", "2") :=
    ⟨['b'], [], [], ['2'], hplain ['b'], by simp, by simp, hplain ['2'], rfl⟩
  have hthird : Json.SpellsMember "\"\\u0061\":\"3\"".toList ("a", "3") :=
    ⟨_, [], [], ['3'], hescaped, by simp, by simp, hplain ['3'], rfl⟩
  have hblank : Json.SpellsMembers ([' '] ++ ("\"\\u0061\":\"3\"".toList ++ [])) [("a", "3")] :=
    .last hspace hthird (by simp)
  have hmembers : Json.SpellsMembers
      "\"a\" : \"1\",\"b\":\"2\", \"\\u0061\":\"3\"".toList pairs :=
    hfirst.cons (hsecond.cons hblank)
  have hobject : Json.HoldsObject
      "\x7b\"a\" : \"1\",\"b\":\"2\", \"\\u0061\":\"3\"\x7d" pairs :=
    ⟨[], _, [], by simp, .inr hmembers, by simp, by decide⟩
  obtain ⟨value, _, hvalue, -, hagree, -⟩ := ((kinds_agree (m := Id)).2.1 pairs).2 _ hobject
  have hpairs := ((kinds_agree (m := Id)).1 pairs.reverse).1
  refine ⟨value, hvalue, ?_, rfl⟩
  rw [hagree.answers, ← List.reverse_reverse pairs, ← hpairs.answers]
  rfl

end Lookup

end TextTemplate
