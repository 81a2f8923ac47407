import Klens.Lib.Maps
import Klens.Schemas.DependenciesProofs
import Klens.Schemas.Protobuf

/-! When every name that a Protobuf schema or one behind it imports is among the
files that it is compiled from. -/
namespace Klens.Schemas
open Klens.Lib Klens.Store Std

section Names
variable (served : SchemaMap) (references : List SchemaReference)

/-- No name that is reached stands for two schemas. -/
def OneMeaning : Prop :=
  ∀ one two, (referenceGraph served).Met references one → (referenceGraph served).Met references two →
    one.name = two.name → one.key = two.key

/-- No schema that is reached goes under two names. -/
def OneName : Prop :=
  ∀ one two, (referenceGraph served).Met references one → (referenceGraph served).Met references two →
    one.key = two.key → one.name = two.name

variable {Body Spans : Type*} (protox : Protox Body Spans)

/-- Every reference that is reached is listed with the text of its schema, and
looking up its name gives that text, unless protox has a file of its own for it. -/
def ImportsFound (root : String) (listed : List (String × String)) : Prop :=
  ∀ reference, (referenceGraph served).Met references reference →
    ∃ schema, served[reference.key]? = some schema ∧ (reference.name, schema.schema) ∈ listed ∧
      (protox.google reference.name = none → openFile protox root listed reference.name =
        fromSource protox reference.name schema.schema) ∧
      openFile protox root listed reference.name ≠ .error (.fileNotFound reference.name)

end Names

section Files
variable {Body Spans : Type*} {protox : Protox Body Spans} {root name source : String}
  {listed : List (String × String)}

/-- Where no name is listed with two texts, the files have what is listed. -/
theorem compileFiles_of_mem (functional : Maps.Functional listed) (held : (name, source) ∈ listed) :
    (compileFiles root listed)[name]? = some source := by
  rw [compileFiles, Maps.foldl_insert_eq listed Prod.fst Prod.snd]
  apply Maps.getElem?_insertMany_of_mem
  · simpa using functional
  · simpa using held

theorem openFile_of_mem (functional : Maps.Functional listed) (held : (name, source) ∈ listed)
    (apart : protox.google name = none) :
    openFile protox root listed name = fromSource protox name source := by
  rw [openFile, apart]
  dsimp only
  rw [MemoryResolver.openFile, compileFiles_of_mem functional held]

theorem fromSource_ne_fileNotFound (missing : String) :
    fromSource protox name source ≠ .error (.fileNotFound missing) := by
  rw [fromSource]
  cases protox.fromSource name (dropUnknownEscapes source) with
  | error message => simp [Except.map, Except.mapError]
  | ok file => simp [Except.map, Except.mapError]

theorem openFile_finds (functional : Maps.Functional listed) (held : (name, source) ∈ listed)
    (missing : String) : openFile protox root listed name ≠ .error (.fileNotFound missing) := by
  cases bundled : protox.google name with
  | none =>
    rw [openFile_of_mem functional held bundled]
    exact fromSource_ne_fileNotFound missing
  | some file =>
    rw [openFile, bundled]
    simp

end Files

section Imports
variable {served : SchemaMap} {references : List SchemaReference}
  {order : List (SchemaReference × Schema)}

theorem functional_output (meaning : OneMeaning served references)
    (lists : DepthFirst.Lists (referenceGraph served) references order) :
    Maps.Functional (order.map Walk.output) := by
  refine Maps.functional_map fun one here two there same => ?_
  obtain ⟨first, held⟩ := lists.found one here
  obtain ⟨second, also⟩ := lists.found two there
  have key : (referenceGraph served).key one.1 = (referenceGraph served).key two.1 :=
    meaning one.1 two.1 first second same
  rw [key] at held
  rw [Option.some.inj (held.symm.trans also)]

theorem listed_of_met (lists : DepthFirst.Lists (referenceGraph served) references order)
    (serves : ∀ key, (referenceGraph served).Reached references key → key ∈ served)
    {reference : SchemaReference} (met : (referenceGraph served).Met references reference) :
    ∃ entry ∈ order, entry.1.key = reference.key ∧ served[reference.key]? = some entry.2 := by
  have reached : (referenceGraph served).Reached references reference.key := ⟨reference, met, rfl⟩
  have here := ExtTreeMap.mem_iff_isSome_getElem?.mp (serves _ reached)
  obtain ⟨entry, held, same⟩ := List.mem_map.mp ((lists.complete _).mpr ⟨reached, here⟩)
  have found := (lists.found entry held).2
  rw [show (referenceGraph served).key entry.1 = reference.key from same] at found
  exact ⟨entry, held, same, found⟩

/-- An entry that lists a name has the schema that the name means. -/
theorem entry_of_name (meaning : OneMeaning served references)
    (lists : DepthFirst.Lists (referenceGraph served) references order)
    {reference : SchemaReference} (met : (referenceGraph served).Met references reference)
    {text : String} (listed : (reference.name, text) ∈ order.map Walk.output) :
    ∃ entry ∈ order, entry.1.name = reference.name ∧ entry.1.key = reference.key := by
  obtain ⟨entry, held, same⟩ := List.mem_map.mp listed
  have name : entry.1.name = reference.name := congrArg Prod.fst same
  exact ⟨entry, held, name, meaning _ _ (lists.found entry held).1 met name⟩

theorem importsFound_iff {Body Spans : Type*} (protox : Protox Body Spans) (root : String)
    (meaning : OneMeaning served references)
    (serves : ∀ key, (referenceGraph served).Reached references key → key ∈ served)
    (lists : DepthFirst.Lists (referenceGraph served) references order) :
    ImportsFound served references protox root (order.map Walk.output) ↔
      OneName served references := by
  constructor
  · intro found one two first second same
    -- Both names are listed, and a schema is listed under one name only.
    obtain ⟨_, _, listed, _⟩ := found one first
    obtain ⟨entry, held, name, key⟩ := entry_of_name meaning lists first listed
    obtain ⟨_, _, listed, _⟩ := found two second
    obtain ⟨other, also, name', key'⟩ := entry_of_name meaning lists second listed
    obtain rfl : entry = other := List.inj_on_of_nodup_map lists.once held also
      (key.trans (same.trans key'.symm))
    exact name.symm.trans name'
  · intro names reference met
    obtain ⟨entry, held, key, here⟩ := listed_of_met lists serves met
    have name : entry.1.name = reference.name := names _ _ (lists.found entry held).1 met key
    have listed : (reference.name, entry.2.schema) ∈ order.map Walk.output :=
      List.mem_map.mpr ⟨entry, held, Prod.ext name rfl⟩
    have functional := functional_output meaning lists
    exact ⟨entry.2, here, listed, openFile_of_mem functional listed,
      openFile_finds functional listed _⟩

/-- `dependencies` lists every name that is imported, with the text it stands for,
exactly where no schema that is reached goes under two names. -/
theorem every_import_found_iff {Body Spans : Type*} (protox : Protox Body Spans) (root : String)
    {arrive : List SchemaReference → List SchemaReference}
    (arrives : ∀ wave, (arrive wave).Perm wave)
    (serves : ∀ key, (referenceGraph served).Reached references key → key ∈ served)
    (meaning : OneMeaning served references) :
    ∃ enough asked listed,
      (∀ fuel, enough ≤ fuel → dependencies served arrive references fuel =
        some { asked, result := .ok listed }) ∧
      (ImportsFound served references protox root listed ↔ OneName served references) := by
  obtain ⟨enough, asked, order, ran, _, lists⟩ := dependencies_lists arrives serves
  exact ⟨enough, asked, _, ran, importsFound_iff protox root meaning serves lists⟩

end Imports

section Shared

/-- A user's file needs the common one. -/
def people : SchemaMap :=
  .ofList
    [ (("common", 1), { schema := "message Common {}", references := [] }),
      (("user", 1),
        { schema := "import \"types/common.proto\"; message User {}"
          references := [⟨"types/common.proto", "common", 1⟩] }) ]
    tupleOrder

def anyFile : Protox (String × String) Unit :=
  { google := fun _ => none
    fromSource := fun name source => .ok { body := (name, source), sourceCodeInfo := some () } }

/-- What an order imports, the common file under the name the user's file has for it. -/
def orderImports : List SchemaReference :=
  [⟨"types/common.proto", "common", 1⟩, ⟨"user.proto", "user", 1⟩]

def renamedImports : List SchemaReference :=
  [⟨"common.proto", "common", 1⟩, ⟨"user.proto", "user", 1⟩]

theorem every_import_found_under_one_name :
    ∃ enough asked listed,
      (∀ fuel, enough ≤ fuel → dependencies people List.reverse orderImports fuel =
        some { asked, result := .ok listed }) ∧
      ImportsFound people orderImports anyFile "message Order {}" listed := by
  have every : ∀ one ∈ allReferences people orderImports, ∀ two ∈ allReferences people orderImports,
      one.name = two.name ↔ one.key = two.key := by decide
  obtain ⟨enough, asked, listed, ran, found⟩ := every_import_found_iff anyFile "message Order {}"
    List.reverse_perm (serves_of_closed (by decide)) fun one two first second =>
      (every one (mem_allReferences first) two (mem_allReferences second)).mp
  exact ⟨enough, asked, listed, ran, found.mpr fun one two first second =>
    (every one (mem_allReferences first) two (mem_allReferences second)).mpr⟩

/-- The order's own name for the common file is lost: it is not listed, and
looking it up fails. -/
theorem import_lost_under_two_names :
    OneMeaning people renamedImports ∧
      (∀ fuel, 8 ≤ fuel → dependencies people id renamedImports fuel =
        some
          { asked := [("common", 1), ("user", 1)]
            result := .ok
              [ ("types/common.proto", "message Common {}"),
                ("user.proto", "import \"types/common.proto\"; message User {}") ] }) ∧
      ¬ImportsFound people renamedImports anyFile "import \"common.proto\"; message Order {}"
        [ ("types/common.proto", "message Common {}"),
          ("user.proto", "import \"types/common.proto\"; message User {}") ] ∧
      openFile anyFile "import \"common.proto\"; message Order {}"
        [ ("types/common.proto", "message Common {}"),
          ("user.proto", "import \"types/common.proto\"; message User {}") ] "common.proto" =
        .error (.fileNotFound "common.proto") := by
  refine ⟨fun one two first second => ?_, fun fuel more => dependencies_mono more (by rfl),
    fun found => ?_, by rfl⟩
  · have every : ∀ one ∈ allReferences people renamedImports,
        ∀ two ∈ allReferences people renamedImports, one.name = two.name → one.key = two.key := by
      decide
    exact every one (mem_allReferences first) two (mem_allReferences second)
  · obtain ⟨_, _, listed, _⟩ := found ⟨"common.proto", "common", 1⟩ (.root (.head _))
    simp at listed

end Shared
end Klens.Schemas
