import GoAtlas.Proofs.Firsts
import GoAtlas.View.MethodSet

/-!
# The method set of an interface

An interface that embeds others takes each of them into account in turn. `MethodSet.foldl_embed`
says what the whole turn comes to: the methods that all of them offer are gone through in order, and
of each name that is not there yet the first is added.

What an embedded interface offers are its own methods, and not what it embeds in turn. So the method
set is a union one level deep (`methodSet_union`): each method that is added is declared by an
interface that is embedded directly, and each name that such an interface declares is there.
-/

namespace GoAtlas

/-- The name of a method of a method set. -/
def MethodEntry.name (m : MethodEntry) : String :=
  m.signature.name

namespace MethodSet

variable {origin : String} {found : List MethodEntry} {signatures : List Signature}
  {body : Reference → Option (List Signature × List Reference)}

/-! ## Taking interfaces into account -/

/-- Methods with the interface that declares them. -/
def entries (origin : String) (signatures : List Signature) : List MethodEntry :=
  signatures.map fun signature => { signature, origin }

/-- The methods that a reference offers, if it has a body. -/
def offered (body : Reference → Option (List Signature × List Reference)) (r : Reference) :
    List MethodEntry :=
  match body r with
  | none => []
  | some (methods, _) => entries (r.simpleName?.getD "") methods

/-- The texts of what a reference embeds in turn, if it has a body. -/
def passedOver (body : Reference → Option (List Signature × List Reference)) (r : Reference) :
    List String :=
  match body r with
  | none => []
  | some (_, embeds) => embeds.map Reference.display

/-- Methods are added when their name is not there yet. -/
theorem addMethods_eq : addMethods origin found signatures =
    found ++ firsts MethodEntry.name (found.map MethodEntry.name) (entries origin signatures) := by
  induction signatures generalizing found with
  | nil => exact (List.append_nil found).symm
  | cons s rest ih =>
    have hentries : entries origin (s :: rest) =
        { signature := s, origin } :: entries origin rest := List.map_cons
    have hany : found.any (·.signature.name == s.name) = true ↔
        MethodEntry.name { signature := s, origin } ∈ found.map MethodEntry.name := by
      simp only [List.any_eq_true, beq_iff_eq, List.mem_map, MethodEntry.name]
    rw [addMethods, hentries]
    by_cases hs : MethodEntry.name { signature := s, origin } ∈ found.map MethodEntry.name
    · rw [if_pos (hany.mpr hs), firsts_cons_of_mem hs, ih]
    · rw [if_neg (mt hany.mp hs), firsts_cons_of_not_mem hs, ih, List.map_append,
        List.append_assoc]
      rfl

/-- **Taking several interfaces into account** adds, of all the methods that they offer, the first
of each name that is not there yet, and lists the interfaces and what they embed in turn. -/
theorem foldl_embed (s : MethodSet) (rs : List Reference) :
    rs.foldl (fun s r => s.embed r (body r)) s =
      { interface := s.interface
        methods := s.methods ++
          firsts MethodEntry.name (s.methods.map MethodEntry.name) (rs.flatMap (offered body))
        embedded := s.embedded ++ rs.map fun r => ⟨r, (body r).isSome⟩
        notExpanded := s.notExpanded ++ rs.flatMap (passedOver body) } := by
  induction rs generalizing s with
  | nil => simp only [List.foldl_nil, List.flatMap_nil, List.map_nil, firsts, List.append_nil]
  | cons r rest ih =>
    rw [List.foldl_cons, ih, List.flatMap_cons, List.flatMap_cons, List.map_cons, firsts_append]
    rcases hbody : body r with _ | ⟨methods, embeds⟩
    · simp [embed, offered, passedOver, hbody, firsts]
    · simp [embed, offered, passedOver, hbody, addMethods_eq]

end MethodSet

namespace TypeGraph

variable {g : TypeGraph} {name origin : String} {expand : Bool} {r : Reference} {d : Declaration}
  {methods signatures : List Signature} {embeds further : List Reference}
  {constraints : List String}

/-! ## Interfaces that are expanded -/

/-- The methods and embedded interfaces of a reference, if embedded interfaces are taken into
account and the reference names one that is declared. -/
def expandedBody? (g : TypeGraph) (expand : Bool) (r : Reference) :
    Option (List Signature × List Reference) :=
  if expand then g.interfaceBody? r else none

/-- A reference is expanded: embedded interfaces are taken into account, and it is the plain name of
a declared interface. -/
def IsExpanded (g : TypeGraph) (expand : Bool) (r : Reference) (origin : String)
    (signatures : List Signature) (further : List Reference) : Prop :=
  expand = true ∧ (∃ pointer, r = .named none origin pointer) ∧
    ∃ d constraints, g.find? origin = some d ∧ d.shape = .interface signatures further constraints

theorem interfaceBody?_eq_some_iff : g.interfaceBody? r = some (signatures, further) ↔
    ∃ origin pointer d constraints, r = .named none origin pointer ∧ g.find? origin = some d ∧
      d.shape = .interface signatures further constraints := by
  rcases r with ⟨_ | package, origin, pointer⟩ | predeclared | _ | _ | text
  · rw [interfaceBody?]
    rcases hd : g.find? origin with _ | d
    · simp [hd]
    · rcases hshape : d.shape with target | fields | ⟨methods, embeds, constraints⟩ <;>
        simp [hshape, hd]
  all_goals simp [interfaceBody?]

/-- The reference that is expanded tells the name and the body. -/
theorem expandedBody?_eq_some_iff : g.expandedBody? expand r = some (signatures, further) ↔
    ∃ origin, g.IsExpanded expand r origin signatures further := by
  cases expand
  · simp [expandedBody?, IsExpanded]
  · simp only [expandedBody?, if_true, interfaceBody?_eq_some_iff, IsExpanded, true_and]
    constructor
    · rintro ⟨origin, pointer, d, constraints, hr, hd, hshape⟩
      exact ⟨origin, ⟨pointer, hr⟩, d, constraints, hd, hshape⟩
    · rintro ⟨origin, ⟨pointer, hr⟩, d, constraints, hd, hshape⟩
      exact ⟨origin, pointer, d, constraints, hr, hd, hshape⟩

theorem isSome_expandedBody?_iff : (g.expandedBody? expand r).isSome = true ↔
    ∃ origin signatures further, g.IsExpanded expand r origin signatures further := by
  rw [Option.isSome_iff_exists]
  constructor
  · rintro ⟨⟨signatures, further⟩, hbody⟩
    obtain ⟨origin, h⟩ := expandedBody?_eq_some_iff.mp hbody
    exact ⟨origin, signatures, further, h⟩
  · rintro ⟨origin, signatures, further, h⟩
    exact ⟨_, expandedBody?_eq_some_iff.mpr ⟨origin, h⟩⟩

/-- What a reference offers are the methods that the interface of its name declares. -/
theorem mem_offered_iff {m : MethodEntry} : m ∈ MethodSet.offered (g.expandedBody? expand) r ↔
    ∃ signatures further, g.IsExpanded expand r m.origin signatures further ∧
      m.signature ∈ signatures := by
  rw [MethodSet.offered]
  constructor
  · intro hm
    rcases hbody : g.expandedBody? expand r with _ | ⟨signatures, further⟩
    · rw [hbody] at hm
      cases hm
    · rw [hbody] at hm
      obtain ⟨signature, hsignature, rfl⟩ := List.mem_map.mp hm
      obtain ⟨origin, hexpanded⟩ := expandedBody?_eq_some_iff.mp hbody
      obtain ⟨pointer, rfl⟩ := hexpanded.2.1
      exact ⟨signatures, further, hexpanded, hsignature⟩
  · rintro ⟨signatures, further, hexpanded, hsignature⟩
    rw [expandedBody?_eq_some_iff.mpr ⟨_, hexpanded⟩]
    obtain ⟨pointer, rfl⟩ := hexpanded.2.1
    exact List.mem_map.mpr ⟨m.signature, hsignature, rfl⟩

/-! ## The method set -/

/-- A method set is that of a declared interface, with its embedded interfaces taken into account
one after the other. -/
theorem methodSet_eq_ok_iff {s : MethodSet} : g.methodSet expand name = .ok s ↔
    ∃ d methods embeds constraints, g.find? name = some d ∧
      d.shape = .interface methods embeds constraints ∧
      s = embeds.foldl (fun s r => s.embed r (g.expandedBody? expand r))
        { interface := name
          methods := MethodSet.entries name methods
          embedded := []
          notExpanded := [] } := by
  rw [methodSet]
  rcases g.find? name with _ | d
  · simp
  · rcases hshape : d.shape with _ | _ | _ <;>
      simp [hshape, eq_comm, expandedBody?, MethodSet.entries]

/-- What is added to an interface's own methods: of the methods that its embeds offer, the first of
each name that is not there yet. -/
def addedMethods (g : TypeGraph) (expand : Bool) (methods : List Signature)
    (embeds : List Reference) : List MethodEntry :=
  firsts MethodEntry.name (methods.map Signature.name)
    (embeds.flatMap (MethodSet.offered (g.expandedBody? expand)))

/-- The method set of an interface, all at once. -/
theorem methodSet_eq (hd : g.find? name = some d)
    (hshape : d.shape = .interface methods embeds constraints) :
    g.methodSet expand name = .ok
      { interface := name
        methods := MethodSet.entries name methods ++ g.addedMethods expand methods embeds
        embedded := embeds.map fun r => ⟨r, (g.expandedBody? expand r).isSome⟩
        notExpanded := embeds.flatMap (MethodSet.passedOver (g.expandedBody? expand)) } := by
  have hown : (MethodSet.entries name methods).map MethodEntry.name =
      methods.map Signature.name := List.map_map
  refine methodSet_eq_ok_iff.mpr ⟨d, methods, embeds, constraints, hd, hshape, ?_⟩
  rw [MethodSet.foldl_embed, hown]
  rfl

/-- What the embeds of an interface offer are the methods of those that are expanded. -/
theorem mem_flatMap_offered_iff {m : MethodEntry} :
    m ∈ embeds.flatMap (MethodSet.offered (g.expandedBody? expand)) ↔
      ∃ r ∈ embeds, ∃ signatures further,
        g.IsExpanded expand r m.origin signatures further ∧ m.signature ∈ signatures := by
  rw [List.mem_flatMap]
  exact exists_congr fun r => and_congr_right fun _ => mem_offered_iff

/-- The names that the embeds of an interface offer. -/
theorem mem_map_flatMap_offered_iff {x : String} :
    x ∈ (embeds.flatMap (MethodSet.offered (g.expandedBody? expand))).map MethodEntry.name ↔
      ∃ r ∈ embeds, ∃ origin signatures further,
        g.IsExpanded expand r origin signatures further ∧
          ∃ signature ∈ signatures, signature.name = x := by
  rw [List.mem_map]
  constructor
  · rintro ⟨m, hm, rfl⟩
    obtain ⟨r, hr, signatures, further, hexpanded, hsignature⟩ := mem_flatMap_offered_iff.mp hm
    exact ⟨r, hr, m.origin, signatures, further, hexpanded, m.signature, hsignature, rfl⟩
  · rintro ⟨r, hr, origin, signatures, further, hexpanded, signature, hsignature, rfl⟩
    exact ⟨{ signature, origin }, mem_flatMap_offered_iff.mpr
      ⟨r, hr, signatures, further, hexpanded, hsignature⟩, rfl⟩

/-- **The method set is a union one level deep.** It has the interface's own methods, all of them
and in order; and then, of the methods that the expanded interfaces declare, in the order of the
embeds, the first of each name that is not there yet. So whatever is added is declared by a directly
embedded interface, the one that is told as its origin, and no name is added twice or against an own
method; and the names of the set are those of the own methods and of the methods of the expanded
interfaces, and no others. The embeds are listed one to one with whether they were expanded, and so
are the embeds of those that were, which are not expanded in turn. -/
theorem methodSet_union (hd : g.find? name = some d)
    (hshape : d.shape = .interface methods embeds constraints) (expand : Bool) :
    ∃ s added, g.methodSet expand name = .ok s ∧ s.interface = name ∧
      s.methods = MethodSet.entries name methods ++ added ∧
      added = firsts MethodEntry.name (methods.map Signature.name)
        (embeds.flatMap (MethodSet.offered (g.expandedBody? expand))) ∧
      (∀ m ∈ added, ∃ r ∈ embeds, ∃ signatures further,
        g.IsExpanded expand r m.origin signatures further ∧ m.signature ∈ signatures) ∧
      (added.map MethodEntry.name).Nodup ∧
      (∀ m ∈ added, ∀ signature ∈ methods, signature.name ≠ m.name) ∧
      (∀ x, x ∈ s.names ↔ (∃ signature ∈ methods, signature.name = x) ∨
        ∃ r ∈ embeds, ∃ origin signatures further,
          g.IsExpanded expand r origin signatures further ∧
            ∃ signature ∈ signatures, signature.name = x) ∧
      List.Forall₂ (fun r e => e.reference = r ∧ (e.expanded = true ↔
        ∃ origin signatures further, g.IsExpanded expand r origin signatures further))
        embeds s.embedded ∧
      s.notExpanded = embeds.flatMap (MethodSet.passedOver (g.expandedBody? expand)) := by
  refine ⟨_, g.addedMethods expand methods embeds, methodSet_eq hd hshape, rfl, rfl, rfl,
    fun m hm => ?_, nodup_map_firsts, fun m hm signature hsignature heq => ?_, fun x => ?_, ?_, rfl⟩
  · exact mem_flatMap_offered_iff.mp (firsts_sublist.subset hm)
  · exact (mem_firsts_iff.mp hm).1 (heq ▸ List.mem_map_of_mem hsignature)
  · have hown : (MethodSet.entries name methods).map MethodEntry.name =
        methods.map Signature.name := List.map_map
    change x ∈ (MethodSet.entries name methods ++ _).map MethodEntry.name ↔ _
    rw [List.map_append, List.mem_append, hown, addedMethods, mem_map_firsts_iff,
      mem_map_flatMap_offered_iff, ← List.mem_map]
    tauto
  · rw [List.forall₂_map_right_iff]
    exact List.forall₂_same.mpr fun r _ => ⟨rfl, isSome_expandedBody?_iff⟩

/-- An interface `I` that embeds `J` twice, itself, and a type of another package. `J` embeds `I`,
and declares a method of `I` and another one twice. -/
def entwined : TypeGraph :=
  let method (name : String) : Signature :=
    { name, params := [], results := [], position := default }
  let plain (name : String) : Reference := .named none name false
  let interface (name : String) (methods : List String) (embeds : List Reference) : Declaration :=
    { name
      doc := none
      typeParams := none
      isAlias := false
      position := default
      shape := .interface (methods.map method) embeds [] }
  ofParts
    [interface "I" ["a"] [plain "J", plain "I", .named (some "io") "Reader" false, plain "J"],
      interface "J" ["b", "a", "b"] [plain "I"]]
    []

theorem methodSet_union_entwined : ∃ s added, entwined.methodSet true "I" = .ok s ∧
    s.methods.map (fun m => (m.name, m.origin)) = [("a", "I"), ("b", "J")] ∧
    s.embedded.map EmbeddedInterface.expanded = [true, true, false, true] ∧
    s.notExpanded = ["I", "J", "I", "io.Reader", "J", "I"] ∧
    (∃ own, s.methods = own ++ added) ∧ (added.map MethodEntry.name).Nodup := by
  obtain ⟨d, hd⟩ : ∃ d, entwined.find? "I" = some d := ⟨_, rfl⟩
  obtain ⟨methods, embeds, constraints, hshape⟩ :
      ∃ methods embeds constraints, d.shape = .interface methods embeds constraints := by
    obtain rfl := Option.some.inj (hd.symm.trans rfl)
    exact ⟨_, _, _, rfl⟩
  obtain ⟨s, added, hs, -, hmethods, -, -, hnodup, -⟩ := methodSet_union hd hshape true
  have hview : (entwined.methodSet true "I").map (fun s =>
      (s.methods.map fun m => (m.name, m.origin), s.embedded.map EmbeddedInterface.expanded,
        s.notExpanded)) =
      .ok ([("a", "I"), ("b", "J")], [true, true, false, true],
        ["I", "J", "I", "io.Reader", "J", "I"]) := by decide
  rw [hs] at hview
  obtain ⟨hnames, hrest⟩ := Prod.mk.inj (Except.ok.inj hview)
  obtain ⟨hexpanded, hover⟩ := Prod.mk.inj hrest
  exact ⟨s, added, hs, hnames, hexpanded, hover, ⟨_, hmethods⟩, hnodup⟩

end TypeGraph

end GoAtlas
