import GoAtlas.Proofs.Source.Certificates
import GoAtlas.Proofs.Source.CommentRuns

/-!
# Docs of declarations

In a tree of a text without errors, the type declarations among the children of the root are the
items of the unit, one by one and with nothing dropped; a declaration in parentheses is a group of
all the declarations in it. The doc of each is what the longest run of comments above it says, each
without its marks, line by line and in the order of the text (`SourceUnit.documents_ofTree`).

For a declaration by itself all tokens above it count. For one in a group only what stands behind
the parenthesis counts, and comments between the word `type` and the parenthesis: the word and the
parenthesis do not, so that a comment behind the parenthesis on its row is a doc
(`SourceUnit.documents_beside`).
-/

namespace GoAtlas

open Node (Climbs tokensBefore withElders)
open Phrase (IsAt IsFile parts placeAll charsOfList keepsLines FollowAll)

/-! ## What a declaration is documented by -/

/-- An item is what a type declaration stands for that comes behind other nodes, under the docs that
the comments above it and above its members make. -/
inductive Lowering.Documents (l : Lowering) : List Node × Node → Item → Prop
  | single {before n m doc} (isLone : ∀ c ∈ n.children, c.kind ≠ .symbol "(")
      (isOnly : n.children.filter (·.kind.isSpec) = [m])
      (hasDoc : HasDoc l [] (tokensBefore before) n.start.row doc) :
      Documents l (before, n) (.single (l.spec doc m))
  | group {before n front opening back specs} (children : n.children = front ++ opening :: back)
      (isFirst : ∀ c ∈ front, c.kind ≠ .symbol "(") (isOpening : opening.kind = .symbol "(")
      (members : List.Forall₂ (fun (e : List Node × Node) spec => ∃ doc,
          HasDoc l (front.filter (·.kind == .comment)).reverse (tokensBefore e.1) e.2.start.row doc ∧
            spec = l.spec doc e.2)
        ((withElders [] back).filter (·.2.kind.isSpec)) specs) :
      Documents l (before, n) (.group (l.position n) specs)

/-! ## Some phrases of more -/

namespace Phrase

variable {ps qs : List Phrase} {behind : Bool}

theorem TakeTurns.left (h : TakeTurns behind (ps ++ qs)) : TakeTurns behind ps := by
  induction ps generalizing behind with
  | nil => trivial
  | cons p ps ih =>
    rw [List.cons_append, TakeTurns] at h
    rw [TakeTurns]
    by_cases hcomment : p.kind = .comment
    · rw [if_pos hcomment] at h ⊢
      exact ih h
    · rw [if_neg hcomment] at h ⊢
      exact ⟨h.1, ih h.2⟩

theorem keepsLines_left (h : keepsLines behind (ps ++ qs) = true) : keepsLines behind ps = true := by
  induction ps generalizing behind with
  | nil => rfl
  | cons p ps ih =>
    rw [List.cons_append, keepsLines, Bool.and_eq_true] at h
    rw [keepsLines, Bool.and_eq_true]
    refine ⟨h.1, ?_⟩
    have hrest := h.2
    split_ifs at hrest ⊢ with hcomment
    · exact ih hrest
    · rw [Bool.and_eq_true] at hrest ⊢
      exact ⟨hrest.1, ih hrest.2⟩

theorem FollowAll.left (h : FollowAll (ps ++ qs)) : FollowAll ps := by
  rw [followAll_iff] at h ⊢
  exact fun p hp => h p (List.mem_append_left qs hp)

/-- Behind comments and marks no line is open. -/
theorem keepsLines_right (hps : ∀ p ∈ ps, p.kind = .comment ∨ p.kind.isNamed = false)
    (h : keepsLines false (ps ++ qs) = true) : keepsLines false qs = true := by
  induction ps with
  | nil => exact h
  | cons p ps ih =>
    rw [List.forall_mem_cons] at hps
    rw [List.cons_append, keepsLines, Bool.and_eq_true] at h
    have hrest := h.2
    split_ifs at hrest with hcomment
    · exact ih hps.2 hrest
    · have hnamed := hps.1.resolve_left fun hkind => hcomment (isComment_eq_true_iff.mpr hkind)
      rw [Bool.and_eq_true, hnamed] at hrest
      exact ih hps.2 hrest.2

/-- Elders that come before all are elders of each. -/
theorem withElders_eq_map (elders ns : List Node) :
    withElders elders ns = (withElders [] ns).map fun e => (e.1 ++ elders, e.2) := by
  have hgeneral : ∀ front, withElders (front ++ elders) ns =
      (withElders front ns).map fun e => (e.1 ++ elders, e.2) := by
    induction ns with
    | nil => exact fun _ => rfl
    | cons n ns ih =>
      intro front
      rw [withElders, withElders, List.map_cons, ← List.cons_append, ih]
  exact hgeneral []

theorem exists_of_mem_withElders {elders : List Node} {s : Place} {e : List Node × Node}
    (h : e ∈ withElders elders (placeAll s ps)) :
    ∃ front p back, ps = front ++ p :: back ∧
      e = ((placeAll s front).reverse ++ elders, p.place (s.advance (charsOfList front))) := by
  induction ps generalizing s elders with
  | nil => cases h
  | cons p ps ih =>
    rw [placeAll, withElders, List.mem_cons] at h
    rcases h with rfl | h
    · exact ⟨[], p, ps, rfl, rfl⟩
    · obtain ⟨front, q, back, rfl, rfl⟩ := ih h
      refine ⟨p :: front, q, back, rfl, ?_⟩
      rw [placeAll, List.reverse_cons, List.append_assoc, charsOfList, Place.advance_append]
      rfl

/-- What passes a test is made one by one into what a function makes of it, if it makes something of
what passes and of nothing else. -/
theorem forall₂_filterMap {α β : Type} {t : α → Bool} {f : α → Option β} {R : α → β → Prop}
    {xs : List α} (hsome : ∀ x ∈ xs, t x = true → ∃ y, f x = some y ∧ R x y)
    (hnone : ∀ x ∈ xs, t x = false → f x = none) :
    List.Forall₂ R (xs.filter t) (xs.filterMap f) := by
  induction xs with
  | nil => exact .nil
  | cons x xs ih =>
    rw [List.forall_mem_cons] at hsome hnone
    cases hx : t x with
    | true =>
      obtain ⟨y, hy, hR⟩ := hsome.1 hx
      rw [List.filter_cons_of_pos hx, List.filterMap_cons_some hy]
      exact .cons hR (ih hsome.2 hnone.2)
    | false =>
      rw [List.filter_cons_of_neg (by rw [hx]; exact Bool.false_ne_true),
        List.filterMap_cons_none (hnone.1 hx)]
      exact ih hsome.2 hnone.2

/-- The parts of a construct keep to their lines. -/
theorem Follows.keepsLines {p : Phrase} (h : p.Follows) (hp : p.kind.hasLines = true) :
    keepsLines false p.children = true := by
  cases p with
  | leaf => rfl
  | absent => cases h
  | node kind field children =>
    replace hp : kind.hasLines = true := hp
    rw [Follows, hp] at h
    exact h.2.2.1

/-! ## Groups -/

variable {l : Lowering} {s : Place}

theorem exists_of_mem_placeAll {n : Node} (h : n ∈ placeAll s ps) : ∃ p ∈ ps, ∃ t, n = p.place t := by
  induction ps generalizing s with
  | nil => cases h
  | cons p ps ih =>
    rw [placeAll, List.mem_cons] at h
    rcases h with rfl | h
    · exact ⟨p, List.mem_cons_self, s, rfl⟩
    · obtain ⟨q, hq, t, rfl⟩ := ih h
      exact ⟨q, List.mem_cons_of_mem p hq, t, rfl⟩

/-- Comments and marks at their places show the comments among them. -/
theorem recalls_opening {front : List Phrase} {opening : Phrase}
    (hfollow : ∀ p ∈ front, p.Follows)
    (hfront : ∀ p ∈ front, p.kind = .comment ∨ p.kind.isNamed = false)
    (hopening : opening.kind.isNamed = false) :
    Lowering.Recalls l ((placeAll s front).filter (·.kind == .comment)).reverse []
      (placeAll s (front ++ [opening])).reverse
      (s.advance (charsOfList (front ++ [opening]))).row := by
  have hleaves : (placeAll s front).flatMap Node.leaves = placeAll s front := by
    have hself : ∀ n ∈ placeAll s front, n.leaves = [n] := by
      intro n hn
      obtain ⟨p, hp, t, rfl⟩ := exists_of_mem_placeAll hn
      have hnil := (hfollow p hp).children_eq_nil (hfront p hp)
      exact Node.leaves_of_children_nil (by rw [children_place, hnil]; rfl)
    rw [List.flatMap_congr hself, List.flatMap_singleton']
  have hnamed : (placeAll s front).filter Node.isNamed =
      (placeAll s front).filter (·.kind == .comment) := by
    refine List.filter_congr fun n hn => ?_
    obtain ⟨p, hp, t, rfl⟩ := exists_of_mem_placeAll hn
    rw [Node.isNamed, kind_place]
    rcases hfront p hp with hkind | hkind
    · rw [hkind]
      rfl
    · rw [hkind]
      refine (beq_false_of_ne fun hcomment => ?_).symm
      rw [hcomment] at hkind
      cases hkind
  have hopened : ((opening.place (s.advance (charsOfList front))).isNamed) = false := by
    rw [Node.isNamed, kind_place, hopening]
  have hsplit : (placeAll s (front ++ [opening])).reverse =
      opening.place (s.advance (charsOfList front)) :: (placeAll s front).reverse := by
    rw [placeAll_append, List.reverse_append]
    rfl
  refine ⟨?_, ?_, fun r => ⟨[], Lowering.isLongestRun_nil, ?_⟩⟩
  · have hclimbs := climbs_placeAll front s
    rw [hleaves] at hclimbs
    have hend : Climbs (s.advance (charsOfList front)).row []
        (s.advance (charsOfList (front ++ [opening]))).row := by
      rw [charsOfList_append, Place.advance_append, Place.row_advance _ (charsOfList [opening])]
      exact Nat.le_add_right ..
    have hall := ((hclimbs.filter (·.kind == .comment)).append hend).mono (Nat.zero_le _)
    rw [List.append_nil] at hall
    rwa [List.nil_append, List.reverse_reverse]
  · rw [hsplit, List.find?_cons_of_neg (by rw [hopened]; exact Bool.false_ne_true),
      ← List.head?_filter, List.filter_reverse, hnamed]
    rfl
  · rw [hsplit]
    refine Lowering.docLines_cons_of_plain (fun hcomment => ?_) r
    rw [Node.isNamed, hcomment] at hopened
    cases hopened

/-! ## Declarations -/

/-- The declarations of a group and what ends them take turns, piece by piece. -/
theorem takeTurns_flatten_specs {pieces : List (List Phrase)}
    (h : ∀ piece ∈ pieces, IsLine NodeKind.isSpec piece) : TakeTurns false pieces.flatten := by
  rw [← List.append_nil pieces.flatten]
  refine takeTurns_flatten (fun kind hkind => ⟨isNamed_of_isSpec hkind, ?_⟩) h trivial
  rintro rfl
  cases hkind

end Phrase

open Phrase

/-- Nothing but comments stands beside some parts. -/
theorem Phrase.eq_of_mem_parts {ps qs : List Phrase} {q : Phrase} (h : parts ps = qs) (hq : q ∈ ps) :
    q.kind = .comment ∨ q ∈ qs := by
  by_cases hcomment : q.kind = .comment
  · exact Or.inl hcomment
  · exact Or.inr (h ▸ mem_parts_iff.mpr ⟨hq, hcomment⟩)

namespace Lowering

variable {l : Lowering} {p word : Phrase}

/-- A declaration by itself is the only one among the children, and no parenthesis is. -/
theorem lone_children {spec : Phrase} (hparts : parts p.children = [word, spec])
    (hword : word.kind = .symbol "type") (hspec : spec.kind.isSpec = true) (s : Place) :
    (∀ c ∈ (p.place s).children, c.kind ≠ .symbol "(") ∧
      ∃ m, (p.place s).children.filter (·.kind.isSpec) = [m] := by
  obtain ⟨front, back, hchildren, hfront, hback⟩ :=
    @exists_of_parts_eq spec p.children [word] [] hparts
  have hnone : ∀ {ps : List Phrase}, (∀ q ∈ ps, q.kind = .comment ∨ q = word) → ∀ t,
      (placeAll t ps).filter (·.kind.isSpec) = [] := by
    intro ps hps t
    refine List.filter_eq_nil_iff.mpr fun n hn => ?_
    obtain ⟨q, hq, t, rfl⟩ := exists_of_mem_placeAll hn
    rw [kind_place]
    rcases hps q hq with hkind | rfl
    · rw [hkind]
      exact Bool.false_ne_true
    · rw [hword]
      exact Bool.false_ne_true
  refine ⟨fun c hc hkind => ?_, spec.place (s.advance (charsOfList front)), ?_⟩
  · rw [children_place] at hc
    obtain ⟨q, hq, t, rfl⟩ := exists_of_mem_placeAll hc
    rw [kind_place] at hkind
    rcases eq_of_mem_parts hparts hq with hcomment | hmem
    · rw [hcomment] at hkind
      cases hkind
    · rw [List.mem_cons, List.mem_singleton] at hmem
      rcases hmem with rfl | rfl
      · rw [hword] at hkind
        exact absurd hkind (by decide)
      · rw [hkind] at hspec
        cases hspec
  · rw [children_place, hchildren, placeAll_append, placeAll, List.filter_append,
      hnone fun q hq => (eq_of_mem_parts hfront hq).imp_right List.mem_singleton.mp,
      List.filter_cons_of_pos (by rw [kind_place, hspec]),
      hnone fun q hq => (eq_of_mem_parts hback hq).imp_right nofun]
    rfl

/-- A declaration by itself is a single item under the doc above it. -/
theorem item?_lone {n m : Node} (hn : n.kind = .typeDeclaration)
    (hlone : ∀ c ∈ n.children, c.kind ≠ .symbol "(")
    (honly : n.children.filter (·.kind.isSpec) = [m]) (before : List Node) :
    l.item? before n = some (.single (l.spec (l.doc? before n) m)) := by
  have hno : n.children.any (·.kind == .symbol "(") = false :=
    List.any_eq_false.mpr fun c hc => by simpa using hlone c hc
  have hfind : n.children.find? (·.kind.isSpec) = some m := by
    rw [← List.head?_filter, honly]
    rfl
  rw [item?, if_pos hn, declaration?, hno, hfind]
  rfl

/-- A declaration among the lines of a group has the doc that is above it. -/
theorem exists_member {members tail : List Phrase} {t : Place} {earlier elders : List Node}
    (hturns : TakeTurns false members) (hkept : keepsLines false members = true)
    (hfollow : FollowAll members) (hstart : Recalls l earlier [] elders t.row)
    (htail : ∀ q ∈ tail, q.kind.isSpec = false) {e : List Node × Node}
    (he : e ∈ withElders [] (placeAll t (members ++ tail))) (hspec : e.2.kind.isSpec = true) :
    ∃ spec, l.member? (e.1 ++ elders, e.2) = some spec ∧
      ∃ doc, HasDoc l earlier (tokensBefore e.1) e.2.start.row doc ∧ spec = l.spec doc e.2 := by
  obtain ⟨front, q, back, hmembers, rfl⟩ := exists_of_mem_withElders he
  obtain ⟨rest, rfl⟩ : front <+: members := by
    rcases List.append_eq_append_iff.mp hmembers with ⟨more, hfront, htailEq⟩ | ⟨more, hmem, -⟩
    · refine absurd (htail q (htailEq ▸ List.mem_append_right _ List.mem_cons_self)) ?_
      rw [kind_place] at hspec
      rw [hspec]
      nofun
    · exact ⟨more, hmem.symm⟩
  have hrecalls := recalls_placeAll hturns.left (keepsLines_left hkept) hfollow.left hstart nofun
  rw [List.append_nil] at hrecalls ⊢
  exact ⟨_, if_pos hspec, _, hrecalls.hasDoc _, rfl⟩

/-- Where no declaration stands, there is no member of a group. -/
theorem filterMap_member?_eq_nil {ps : List Phrase} (h : ∀ q ∈ ps, q.kind.isSpec = false)
    (s : Place) : (withElders [] (placeAll s ps)).filterMap l.member? = [] := by
  refine List.filterMap_eq_nil_iff.mpr fun e he => ?_
  obtain ⟨front, q, back, rfl, rfl⟩ := exists_of_mem_withElders he
  rw [member?, kind_place, h q (List.mem_append_right front List.mem_cons_self),
    if_neg Bool.false_ne_true]

end Lowering

/-- A declaration in parentheses: comments around the word `type` in front of the parenthesis, lines
that are kept behind it, and no declaration behind these. -/
structure Phrase.IsGroup (p : Phrase) (front : List Phrase) (opening : Phrase)
    (members back : List Phrase) : Prop where
  children : p.children = front ++ opening :: (members ++ back)
  front : ∀ q ∈ front, q.kind = .comment ∨ q.kind = .symbol "type"
  opening : opening.kind = .symbol "("
  turns : TakeTurns false members
  keepsLines : keepsLines false members = true
  back : ∀ q ∈ back, q.kind.isSpec = false

/-- The grammar has declarations in parentheses like this. -/
theorem Phrase.Follows.exists_isGroup {p word opening closing : Phrase} (h : p.Follows)
    (hp : p.kind = .typeDeclaration) {pieces : List (List Phrase)}
    (hparts : parts p.children = word :: opening :: (pieces.flatten ++ [closing]))
    (hword : word.kind = .symbol "type") (hopening : opening.kind = .symbol "(")
    (hclosing : closing.kind = .symbol ")")
    (hpieces : ∀ piece ∈ pieces, IsLine NodeKind.isSpec piece) :
    ∃ front members back, p.IsGroup front opening members back := by
  obtain ⟨front, behind, hchildren, hfront, hbehind⟩ :=
    @exists_of_parts_eq opening p.children [word] (pieces.flatten ++ [closing]) hparts
  obtain ⟨members, tail, rfl, hmembers, htail⟩ :=
    @exists_of_parts_eq closing behind pieces.flatten [] hbehind
  have hkinds : ∀ q ∈ front, q.kind = .comment ∨ q.kind = .symbol "type" := by
    intro q hq
    refine (eq_of_mem_parts hfront hq).imp_right fun hmem => ?_
    rw [List.mem_singleton.mp hmem, hword]
  refine ⟨front, members, closing :: tail, hchildren, hkinds, hopening,
    takeTurns_of_parts (hmembers ▸ takeTurns_flatten_specs hpieces), ?_, ?_⟩
  · have hlines := h.keepsLines (by rw [hp]; rfl)
    rw [hchildren, ← List.singleton_append (x := opening), ← List.append_assoc] at hlines
    refine keepsLines_left (keepsLines_right (fun q hq => ?_) hlines)
    rw [List.mem_append, List.mem_singleton] at hq
    rcases hq with hq | rfl
    · exact (hkinds q hq).imp_right fun hkind => by rw [hkind]; rfl
    · exact Or.inr (by rw [hopening]; rfl)
  · rw [List.forall_mem_cons, hclosing]
    refine ⟨rfl, fun q hq => ?_⟩
    rw [(eq_of_mem_parts htail hq).resolve_right List.not_mem_nil]
    rfl

namespace Lowering

variable {l : Lowering} {p : Phrase}

/-- The declarations in a group have the docs that are above them, behind the parenthesis. -/
theorem exists_documents_group (h : p.Follows) (hp : p.kind = .typeDeclaration)
    {front members back : List Phrase} {opening : Phrase}
    (hgroup : p.IsGroup front opening members back) (before : List Node) (s : Place) :
    ∃ item, l.item? before (p.place s) = some item ∧ Documents l (before, p.place s) item := by
  have hfollow : ∀ q ∈ p.children, q.Follows := fun q hq => h.of_mem_children hq
  rw [hgroup.children, List.forall_mem_append, List.forall_mem_cons, List.forall_mem_append]
    at hfollow
  obtain ⟨hfrontFollow, -, hmembersFollow, -⟩ := hfollow
  have hfirst : ∀ c ∈ placeAll s front, c.kind ≠ .symbol "(" := by
    intro c hc hkind
    obtain ⟨q, hq, t, rfl⟩ := exists_of_mem_placeAll hc
    rw [kind_place] at hkind
    rcases hgroup.front q hq with heq | heq
    · rw [heq] at hkind
      cases hkind
    · rw [heq] at hkind
      exact absurd hkind (by decide)
  have hnone : ∀ q ∈ front ++ [opening], q.kind.isSpec = false := by
    rw [List.forall_mem_append, List.forall_mem_singleton, hgroup.opening]
    refine ⟨fun q hq => ?_, rfl⟩
    rcases hgroup.front q hq with heq | heq <;> rw [heq] <;> rfl
  have hstart := @recalls_opening l s front opening hfrontFollow
    (fun q hq => (hgroup.front q hq).imp_right fun heq => by rw [heq]; rfl)
    (by rw [hgroup.opening]; rfl)
  have hchildren : (p.place s).children = placeAll s (front ++ [opening]) ++
      placeAll (s.advance (charsOfList (front ++ [opening]))) (members ++ back) := by
    rw [children_place, hgroup.children, ← placeAll_append, List.append_assoc]
    rfl
  have hopening : placeAll s (front ++ [opening]) =
      placeAll s front ++ [opening.place (s.advance (charsOfList front))] := by
    rw [placeAll_append]
    rfl
  generalize s.advance (charsOfList (front ++ [opening])) = t at hstart hchildren
  refine ⟨_, item?_group (kind_place .. ▸ hp) ?_ before,
    @Documents.group l before (p.place s) (placeAll s front)
      (opening.place (s.advance (charsOfList front))) (placeAll t (members ++ back)) _ ?_
      hfirst ?_ ?_⟩
  · rw [hchildren, hopening]
    simp [hgroup.opening]
  · rw [hchildren, hopening, List.append_assoc]
    rfl
  · rw [kind_place, hgroup.opening]
  · rw [hchildren, Node.withElders_append, List.filterMap_append, filterMap_member?_eq_nil hnone,
      List.nil_append, List.append_nil, withElders_eq_map (placeAll s (front ++ [opening])).reverse,
      List.filterMap_map]
    refine forall₂_filterMap (fun e he hspec => ?_) fun e _ hspec => ?_
    · exact exists_member hgroup.turns hgroup.keepsLines ((followAll_iff _).mpr hmembersFollow)
        hstart hgroup.back he hspec
    · rw [Function.comp_apply, member?, if_neg (by rw [hspec]; exact Bool.false_ne_true)]

end Lowering

/-- **A type declaration is documented** behind nodes that show what its doc depends on. -/
theorem Lowering.exists_documents {l : Lowering} {p : Phrase} (h : p.Follows)
    (hp : p.kind = .typeDeclaration) {before : List Node} {row : Nat}
    (hrecalls : Recalls l [] (tokensBefore before) before row) (s : Place) :
    ∃ item, l.item? before (p.place s) = some item ∧ Documents l (before, p.place s) item := by
  obtain ⟨word, hword, ⟨spec, hparts, hspec⟩ | ⟨opening, pieces, closing, hparts, hopening, hclosing,
    hpieces⟩⟩ := h.typeDeclaration hp
  · obtain ⟨hlone, m, honly⟩ := lone_children hparts hword hspec s
    exact ⟨_, item?_lone (kind_place .. ▸ hp) hlone honly before,
      .single hlone honly (hrecalls.hasDoc (p.place s))⟩
  · obtain ⟨front, members, back, hgroup⟩ :=
      h.exists_isGroup hp hparts hword hopening hclosing hpieces
    exact exists_documents_group h hp hgroup before s

/-! ## Units -/

/-- The lines of a file take turns with what ends them. -/
theorem Phrase.IsFile.takeTurns {ps : List Phrase} (h : IsFile ps) : TakeTurns false ps := by
  obtain ⟨pieces, last, hparts, hpieces, hlast⟩ := exists_lines h.derives
  have hstatement : ∀ kind : NodeKind, kind.isStatement = true →
      kind.isNamed = true ∧ kind ≠ .comment := by
    intro kind hkind
    refine ⟨?_, ?_⟩
    · cases kind <;> first | rfl | cases hkind
    · rintro rfl
      cases hkind
  refine takeTurns_of_parts (hparts ▸ takeTurns_flatten hstatement hpieces ?_)
  rcases hlast with rfl | ⟨line, rfl, hline⟩
  · trivial
  · rw [TakeTurns, if_neg (hstatement _ hline).2]
    exact ⟨(hstatement _ hline).1, trivial⟩

namespace SourceUnit

/-- **Which comments make a doc.** In a tree of a text without errors, the type declarations are the
items of the unit one by one; the doc of each, and of each declaration in a group, is what the
longest run of comments above it says, or none if the run is empty. -/
theorem documents_ofTree {source : String} {root : Node} (h : IsTree source root) (name : String) :
    List.Forall₂ (Lowering.Documents { source, unit := name })
      ((withElders [] root.children).filter (·.2.kind == .typeDeclaration))
      (ofTree name source root).items := by
  obtain ⟨ps, tail, hfile, hchildren, -⟩ := h.exists_phrases
  rw [ofTree, Lowering.items_eq, hchildren]
  refine forall₂_filterMap (fun e he hkind => ?_) fun e he hkind => ?_
  · obtain ⟨front, p, back, rfl, rfl⟩ := exists_of_mem_withElders he
    have hfollow := (followAll_iff _).mp hfile.follow p (List.mem_append_right _ List.mem_cons_self)
    have hrecalls := recalls_placeAll hfile.takeTurns.left (keepsLines_left hfile.keepsLines)
      hfile.follow.left (@Lowering.recalls_nil { source, unit := name } Place.start.row) nofun
    rw [beq_iff_eq, kind_place] at hkind
    rw [List.append_nil, List.append_nil] at hrecalls
    rw [List.append_nil]
    exact Lowering.exists_documents hfollow hkind hrecalls _
  · obtain ⟨front, p, back, rfl, rfl⟩ := exists_of_mem_withElders he
    have hfollow := (followAll_iff _).mp hfile.follow p (List.mem_append_right _ List.mem_cons_self)
    refine Lowering.item?_eq_none ⟨?_, ?_⟩ _
    · simpa using hkind
    · rw [kind_place]
      exact hfollow.kind_ne_error

/-- A declaration alone and a group, with comments above them and behind them. -/
def annotated : String :=
  "package p\n\n// The top\n// of it\ntype T int // behind\n\ntype ( // note\n\tA int /* a */ // b" ++
    "\n\n\t/* The last */\n\tB int\n)\n"

theorem documents_ofTree_annotated :
    List.Forall₂ (Lowering.Documents { source := annotated, unit := "t.go" })
      ((withElders [] (SourceText.tree annotated).children).filter (·.2.kind == .typeDeclaration))
      (ofText "t.go" annotated).items ∧
    (ofText "t.go" annotated).items.map (fun item => item.specs.map TypeSpec.doc) =
      [[some "The top\nof it"], [some "note", some "The last"]] :=
  ⟨documents_ofTree (SourceText.isTree_of_certifies (by decide +kernel)) "t.go", by decide +kernel⟩

/-- **A comment behind the parenthesis of a group** makes a doc, though it stands behind other
tokens, and so does no comment that stands behind another one. -/
theorem documents_beside :
    (ofText "t.go" "package p\n\ntype ( // note\n\tA int\n)\n").specs.map TypeSpec.doc =
      [some "note"] ∧
    (ofText "t.go" "package p\n\n/* a */ /* b */\ntype T int\n").specs.map TypeSpec.doc =
      [none] := by
  decide +kernel

end SourceUnit

end GoAtlas
