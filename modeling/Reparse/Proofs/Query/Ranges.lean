import Reparse.Grammar.Arithmetic
import Reparse.Proofs.Document.Obtained
import Reparse.Proofs.Query.Enumeration

/-!
# What a range of bytes leaves of a run

A run with a range of bytes of its own does not go below a node that lies outside of it. In a tree
that is laid out a node that meets the range lies within nodes that meet it as well, but for one
case: an empty node at the beginning of the range meets it, and a node with some text that ends there
does not. So the range leaves of the run without one the visits to the nodes that meet it, except to
the empty nodes at the beginning of the range that such a node is around
(`QueryRun.delivers_in_bytes`).
-/

namespace Reparse

open Reparse.Node (preorder preorderAmong)

/-- A visit with the nodes that were visited around it, nearest first. -/
abbrev Passage := List Node × Visit

namespace Node

variable {keeps base : Node → Bool}

/-- The visits of a walk in preorder, each with the nodes visited around it. -/
def passages (keeps : Node → Bool) (outer : List Node) (shown : Child) (later : List Child) :
    List Passage :=
  if keeps shown.node then
    (outer, (shown, later)) ::
      (withRest shown.node.children).attach.flatMap fun visit =>
        passages keeps (shown.node :: outer) visit.1.1 visit.1.2
  else []
termination_by shown.node.tree.count
decreasing_by
  exact count_lt_of_children shown.node visit.1.1 (mem_of_withRest visit.2).1

theorem passages_eq (keeps : Node → Bool) (outer : List Node) (shown : Child)
    (later : List Child) :
    passages keeps outer shown later =
      if keeps shown.node then
        (outer, (shown, later)) ::
          (withRest shown.node.children).flatMap fun visit =>
            passages keeps (shown.node :: outer) visit.1 visit.2
      else [] := by
  rw [passages]
  congr 2
  conv_rhs => rw [← List.attach_map_subtype_val (withRest shown.node.children)]
  rw [List.flatMap_map]

/-- What steps down to the children keep holds of all nodes on the way. -/
theorem along_passages {motive : List Node → Node → Prop}
    (down : ∀ outer node, motive outer node → keeps node = true →
      ∀ child ∈ node.children, motive (node :: outer) child.node)
    (outer : List Node) (shown : Child) (later : List Child) (begun : motive outer shown.node) :
    ∀ passage ∈ passages keeps outer shown later,
      motive passage.1 passage.2.1.node ∧ keeps passage.2.1.node = true := by
  rw [passages_eq]
  split
  · rename_i kept
    refine List.forall_mem_cons.mpr ⟨⟨begun, kept⟩, ?_⟩
    intro passage member
    rcases List.mem_flatMap.mp member with ⟨visit, among, inside⟩
    have child := (mem_of_withRest among).1
    exact along_passages down _ visit.1 visit.2 (down outer shown.node begun kept visit.1 child)
      passage inside
  · simp
termination_by shown.node.tree.count
decreasing_by exact count_lt_of_children shown.node visit.1 child

/-- A walk that keeps fewer nodes makes the visits of the other one that it keeps together with all
that is around them. -/
theorem visits_of_passages (narrow : ∀ node, keeps node = true → base node = true)
    (outer : List Node) (shown : Child) (later : List Child) (kept : outer.all keeps = true) :
    ((passages base outer shown later).filter fun passage =>
        (passage.2.1.node :: passage.1).all keeps).map (·.2) = preorder keeps shown later := by
  rw [passages_eq, Node.preorder_eq]
  by_cases here : keeps shown.node = true
  · rw [if_pos here, if_pos (narrow _ here), List.filter_cons_of_pos (by simp [here, kept]),
      List.map_cons, List.filter_flatMap, List.map_flatMap, preorderAmong]
    congr 1
    refine List.flatMap_congr fun visit among => ?_
    have child := (mem_of_withRest among).1
    exact visits_of_passages narrow (shown.node :: outer) visit.1 visit.2 (by simp [here, kept])
  · rw [if_neg here]
    split
    · -- what is below a node that is left out has this node around it
      rw [List.map_eq_nil_iff, List.filter_eq_nil_iff]
      intro passage member all
      rcases List.mem_cons.mp member with rfl | below
      · simp [here] at all
      · rcases List.mem_flatMap.mp below with ⟨visit, among, inside⟩
        have around : shown.node ∈ passage.1 :=
          (along_passages (motive := fun outer _ => shown.node ∈ outer)
            (fun _ _ around _ _ _ => List.mem_cons_of_mem _ around) _ visit.1 visit.2
            List.mem_cons_self passage inside).1
        exact here (List.all_eq_true.mp all _ (List.mem_cons_of_mem _ around))
    · rfl
termination_by shown.node.tree.count
decreasing_by exact count_lt_of_children shown.node visit.1 child

/-! ## Nodes that meet a range -/

/-- Whether the text of a node meets a range of bytes; an empty node meets it where it stands in it. -/
def meetsBytes (bytes : Nat × Nat) (node : Node) : Bool :=
  meetsRange (fun left right => decide (left < right)) node.start.bytes node.stop.bytes bytes

theorem meetsBytes_iff {bytes : Nat × Nat} {node : Node} :
    node.meetsBytes bytes = true ↔ node.start.bytes < bytes.2 ∧
      (bytes.1 < node.stop.bytes ∨
        node.start.bytes = node.stop.bytes ∧ node.stop.bytes = bytes.1) := by
  have forward : node.start.bytes ≤ node.stop.bytes := by simp [bytes_stop]
  simp only [meetsBytes, meetsRange, Bool.and_eq_true, Bool.not_eq_true', decide_eq_false_iff_not]
  split <;> simp <;> omega

end Node

/-- An empty node stands at an offset where a node with some text ends around it. -/
def Passage.endsWithText (passage : Passage) (offset : Nat) : Bool :=
  decide (passage.2.1.node.start.bytes = offset ∧ passage.2.1.node.stop.bytes = offset) &&
    passage.1.any fun around =>
      decide (around.start.bytes < around.stop.bytes ∧ around.stop.bytes = offset)

theorem Passage.endsWithText_iff {passage : Passage} {offset : Nat} :
    passage.endsWithText offset = true ↔
      (passage.2.1.node.start.bytes = offset ∧ passage.2.1.node.stop.bytes = offset) ∧
        ∃ around ∈ passage.1, around.start.bytes < around.stop.bytes ∧
          around.stop.bytes = offset := by
  simp [endsWithText]

namespace QueryRun

/-- The nodes around a node contain it, and they start inside of all that can be addressed. -/
structure Enclosed (tree : Tree) (outer : List Node) (node : Node) : Prop where
  lies : node.LiesIn tree
  within : ∀ around ∈ outer, startsInside around = true ∧
    around.start.bytes ≤ node.start.bytes ∧ node.stop.bytes ≤ around.stop.bytes

variable {tree : Tree} {start : Node} {outer : List Node} {node : Node} {bytes : Nat × Nat}

theorem Enclosed.down (laid : tree.Laid) (enclosed : Enclosed tree outer node)
    (inside : startsInside node = true) (child : Child) (member : child ∈ node.children) :
    Enclosed tree (node :: outer) child.node where
  lies := enclosed.lies.children child member
  within := by
    have order := (enclosed.lies.stands laid).children.within child member
    refine List.forall_mem_cons.mpr ⟨⟨inside, order⟩, ?_⟩
    intro around further
    have wider := enclosed.within around further
    exact ⟨wider.1, by omega, by omega⟩

theorem covers_bytes (query : Query) (root start node : Node) (bytes : Nat × Nat) :
    ({ QueryRun.new query root start with bytes } : QueryRun).covers node =
      (node.meetsBytes bytes && node.start.point.before ⟨maxOffset, maxOffset⟩) := by
  have point : node.stop.point = node.start.point + node.info.size.point := rfl
  rw [covers, point]
  exact congrArg (node.meetsBytes bytes && ·) (meetsRange_allPoints _ _ _)

/-- A node that meets the range lies within nodes that meet it, unless it is empty and stands at the
beginning of the range, where a node with some text ends around it. -/
theorem all_meet_iff {passage : Passage} (enclosed : Enclosed tree passage.1 passage.2.1.node) :
    (∀ node ∈ passage.2.1.node :: passage.1, node.meetsBytes bytes = true) ↔
      passage.2.1.node.meetsBytes bytes = true ∧ passage.endsWithText bytes.1 = false := by
  rw [List.forall_mem_cons]
  refine and_congr_right fun meets => ?_
  rw [Bool.eq_false_iff, ne_eq, Passage.endsWithText_iff]
  rw [Node.meetsBytes_iff] at meets
  constructor
  · rintro around ⟨_, outside, member, some, ends⟩
    have reached := (Node.meetsBytes_iff.mp (around outside member)).2
    omega
  · intro apart outside member
    rcases enclosed.within outside member with ⟨_, before, behind⟩
    rw [Node.meetsBytes_iff]
    by_contra missed
    refine apart ⟨?_, outside, member, ?_⟩
    · omega
    · have forward := Node.bytes_stop outside
      omega

/-- All passages of a walk without a range are enclosed, and the nodes start inside. -/
theorem enclosed_of_passages (laid : tree.Laid) (lies : start.LiesIn tree) :
    ∀ passage ∈ Node.passages startsInside [] ⟨start, 0⟩ [],
      Enclosed tree passage.1 passage.2.1.node ∧ startsInside passage.2.1.node = true :=
  Node.along_passages (fun _ _ enclosed inside => enclosed.down laid inside) [] ⟨start, 0⟩ []
    ⟨lies, by simp⟩

theorem visits_startsInside (laid : tree.Laid) (lies : start.LiesIn tree) :
    (Node.passages startsInside [] ⟨start, 0⟩ []).map (·.2) =
      preorder startsInside ⟨start, 0⟩ [] := by
  rw [← Node.visits_of_passages (fun _ => id) [] _ _ List.all_nil]
  congr 1
  refine (List.filter_eq_self.mpr fun passage member => ?_).symm
  rcases enclosed_of_passages laid lies passage member with ⟨enclosed, inside⟩
  refine List.all_eq_true.mpr (List.forall_mem_cons.mpr ⟨inside, ?_⟩)
  exact fun around member => (enclosed.within around member).1

/-- The visits of a run with a range, among those of a run without one. -/
theorem visits_in_bytes (query : Query) (root : Node) (laid : tree.Laid) (lies : start.LiesIn tree)
    (addressed : bytes.2 ≤ maxOffset) :
    ((Node.passages startsInside [] ⟨start, 0⟩ []).filter fun passage =>
        passage.2.1.node.meetsBytes bytes && !passage.endsWithText bytes.1).map (·.2) =
      preorder ({ QueryRun.new query root start with bytes } : QueryRun).covers ⟨start, 0⟩ [] := by
  have covers (node : Node) (inside : startsInside node = true) :
      ({ QueryRun.new query root start with bytes } : QueryRun).covers node =
        node.meetsBytes bytes := by
    rw [startsInside, Bool.and_eq_true] at inside
    rw [covers_bytes, inside.2, Bool.and_true]
  have narrow (node : Node)
      (covered : ({ QueryRun.new query root start with bytes } : QueryRun).covers node = true) :
      startsInside node = true := by
    rw [covers_bytes, Bool.and_eq_true, Node.meetsBytes_iff] at covered
    rw [startsInside, covered.2, Bool.and_true]
    exact decide_eq_true (Nat.lt_of_lt_of_le covered.1.1 addressed)
  rw [← Node.visits_of_passages narrow [] _ _ List.all_nil]
  congr 1
  refine List.filter_congr fun passage member => ?_
  rcases enclosed_of_passages laid lies passage member with ⟨enclosed, inside⟩
  rw [Bool.eq_iff_iff, Bool.and_eq_true, Bool.not_eq_true', ← all_meet_iff enclosed,
    List.all_eq_true]
  refine forall₂_congr fun node member => ?_
  have starts : startsInside node = true := by
    rcases List.mem_cons.mp member with rfl | around
    · exact inside
    · exact (enclosed.within node around).1
  rw [covers node starts]

/-- With a range of bytes a run delivers the matches that it delivers without, but only those that
begin at nodes that meet the range, and not those that begin at an empty node at the beginning of the
range where a node with some text ends around it. -/
theorem delivers_in_bytes (query : Query) {document : Document} (obtained : document.Obtained)
    (lies : start.LiesIn document.tree) (shown : start.isVisible = true)
    (addressed : bytes.2 ≤ maxOffset) :
    let run := QueryRun.new query (Node.root document.tree) start
    let passages := Node.passages startsInside [] ⟨start, 0⟩ []
    run.Delivers (passages.flatMap fun passage => query.matchesOf passage.2) ∧
      ({ run with bytes } : QueryRun).Delivers
        ((passages.filter fun passage => passage.2.1.node.meetsBytes bytes &&
            !passage.endsWithText bytes.1).flatMap fun passage => query.matchesOf passage.2) := by
  intro run passages
  have laid := obtained.sound.laid
  have delivers (bytes : Nat × Nat) : ({ run with bytes } : QueryRun).Delivers _ :=
    delivers_matchesOf query obtained.counted lies shown bytes allPoints
  constructor
  · have inside : run.covers = startsInside := funext fun node => covers_new query _ start node
    have whole := delivers allBytes
    change run.Delivers ((preorder run.covers ⟨start, 0⟩ []).flatMap query.matchesOf) at whole
    rwa [inside, ← visits_startsInside laid lies, List.flatMap_map] at whole
  · have part := delivers bytes
    change ({ run with bytes } : QueryRun).Delivers
      ((preorder ({ run with bytes } : QueryRun).covers ⟨start, 0⟩ []).flatMap query.matchesOf)
        at part
    rwa [← visits_in_bytes query _ laid lies addressed, List.flatMap_map] at part

/-- The numbers of a sum, in the range of the second one. -/
theorem delivers_in_bytes_sum :
    ∃ parsed query,
      Parser.new.parseIn (Language.arithmetic 0) #[49, 32, 43, 32, 50] none = .ok parsed ∧
      Query.compile (Language.arithmetic 0) "(number) @n" = .ok query ∧
      parsed.document.Obtained ∧ (Node.root parsed.document.tree).LiesIn parsed.document.tree ∧
      (Node.root parsed.document.tree).isVisible = true ∧
      let run := QueryRun.new query (Node.root parsed.document.tree) (Node.root parsed.document.tree)
      let passages := Node.passages startsInside [] ⟨Node.root parsed.document.tree, 0⟩ []
      ({ run with bytes := (3, 5) } : QueryRun).Delivers
        ((passages.filter fun passage => passage.2.1.node.meetsBytes (3, 5) &&
            !passage.endsWithText 3).flatMap fun passage => query.matchesOf passage.2) := by
  have parses : (Parser.new.parseIn (Language.arithmetic 0) #[49, 32, 43, 32, 50] none).isOk =
      true := by
    decide +kernel
  have compiles : (Query.compile (Language.arithmetic 0) "(number) @n").isOk = true := by
    decide +kernel
  rcases exists_ok_of_isOk parses with ⟨parsed, run⟩
  rcases exists_ok_of_isOk compiles with ⟨query, compiled⟩
  have obtained : parsed.document.Obtained := .fresh Arithmetic.byInterface_grammar run
  have lies := Node.liesIn_root parsed.document.tree
  have addressed : (3, 5).2 ≤ maxOffset := by decide
  exact ⟨parsed, query, run, compiled, obtained, lies, rfl,
    (delivers_in_bytes query obtained lies rfl addressed).2⟩

/-- A parenthesis that is missing at the end of the text meets the range that begins there, and is
not delivered in it. -/
theorem not_delivers_meeting :
    ∃ parsed query, Parser.new.parseIn (Language.arithmetic 0) #[40, 49] none = .ok parsed ∧
      Query.compile (Language.arithmetic 0) "(MISSING) @m" = .ok query ∧
      let run := QueryRun.new query parsed.document.root parsed.document.root
      let visits := preorder startsInside ⟨parsed.document.root, 0⟩ []
      ¬({ run with bytes := (2, 5) } : QueryRun).Delivers
        ((visits.filter fun visit => visit.1.node.meetsBytes (2, 5)).flatMap query.matchesOf) := by
  have facts : (match Parser.new.parseIn (Language.arithmetic 0) #[40, 49] none,
        Query.compile (Language.arithmetic 0) "(MISSING) @m" with
      | .ok parsed, .ok query =>
        let run := QueryRun.new query parsed.document.root parsed.document.root
        let visits := preorder startsInside ⟨parsed.document.root, 0⟩ []
        ({ run with bytes := (2, 5) } : QueryRun).nextMatch.1.isNone &&
          !((visits.filter fun visit => visit.1.node.meetsBytes (2, 5)).flatMap
            query.matchesOf).isEmpty
      | _, _ => false) = true := by decide +kernel
  cases run : Parser.new.parseIn (Language.arithmetic 0) #[40, 49] none with
  | error fault => simp [run] at facts
  | ok parsed =>
      cases compiled : Query.compile (Language.arithmetic 0) "(MISSING) @m" with
      | error mistake => simp [run, compiled] at facts
      | ok query =>
          simp only [run, compiled, Bool.and_eq_true, Option.isNone_iff_eq_none,
            Bool.not_eq_true', List.isEmpty_eq_false_iff] at facts
          exact ⟨parsed, query, rfl, rfl, fun delivers =>
            facts.2 (eq_nil_of_delivers delivers facts.1)⟩

end QueryRun

end Reparse
