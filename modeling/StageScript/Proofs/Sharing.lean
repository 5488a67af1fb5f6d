import Mathlib.Data.List.Nodup
import StageScript.Proofs.Irrelevance
import StageScript.Proofs.NodeOrder

set_option autoImplicit false

/-! # Shared nodes

A list of nodes may share a node between several parents, keep its nodes in any order and hold nodes
that nothing refers to. Only the tree that it spells out counts: `Expression.unfolding_decides`. An
evaluation goes every way that consulted positions lead from the root and reports, behind all ways
that go on from there, what the node at the end adds (`Expression.Visits`). A shared node therefore
shows up once for each way that leads to it. -/

namespace StageScript

/-! ## More levels -/

theorem TreeArguments.collect?_mono {find find' : Nat → Option Tree}
    (hfind : ∀ i t, find i = some t → find' i = some t) {arguments : List NodeArgument}
    {values : TreeArguments} (h : collect? find arguments = some values) :
    collect? find' arguments = some values := by
  induction arguments generalizing values with
  | nil => exact h
  | cons a rest ih =>
    obtain ⟨t, ht, h⟩ := Option.bind_eq_some_iff.1 h
    obtain ⟨others, hothers, h⟩ := Option.bind_eq_some_iff.1 h
    rw [collect?, hfind _ _ ht, ih hothers]
    exact h

theorem Node.Unfolds.mono {find find' : Nat → Option Tree}
    (hfind : ∀ i t, find i = some t → find' i = some t) {n : Node} {t : Tree}
    (h : n.Unfolds find t) : n.Unfolds find' t := by
  cases h with
  | atom literal line => exact .atom literal line
  | group hinner => exact .group (hfind _ _ hinner)
  | comparison c hl hr => exact .comparison c (hfind _ _ hl) (hfind _ _ hr)
  | connective c hl hr => exact .connective c (hfind _ _ hl) (hfind _ _ hr)
  | call name line hvalues => exact .call name line (TreeArguments.collect?_mono hfind hvalues)

namespace Expression

variable {e : Expression}

/-- A tree that is found within some levels is found within more. -/
theorem treeWithin?_mono {n m i : Nat} {t : Tree} (h : e.treeWithin? n i = some t) (hle : n ≤ m) :
    e.treeWithin? m i = some t := by
  induction n generalizing m i t with
  | zero => cases h
  | succ n ih =>
    obtain ⟨m, rfl⟩ : ∃ k, m = k + 1 := ⟨m - 1, by omega⟩
    obtain ⟨node, hnode, hunfolds⟩ := treeWithin?_succ.1 h
    exact treeWithin?_succ.2
      ⟨node, hnode, hunfolds.mono fun j u hu => ih hu (Nat.le_of_succ_le_succ hle)⟩

/-- The tree of a found position was unfolded from found positions. -/
theorem Found.unfolds {i : Nat} {t : Tree} (h : e.Found i t) :
    ∃ n, e.nodes[i]? = some n ∧ n.Unfolds (e.treeWithin? e.nodes.size) t := by
  obtain ⟨node, hnode, hunfolds⟩ := treeWithin?_succ.1 (treeWithin?_mono h.tree (Nat.le_succ _))
  exact ⟨node, hnode, hunfolds⟩

end Expression

theorem Operator.sizeOf_lt_join (o : Operator) (lhs rhs : Tree) :
    sizeOf lhs < sizeOf (o.join lhs rhs) ∧ sizeOf rhs < sizeOf (o.join lhs rhs) := by
  cases o <;>
    simp only [join, Tree.comparison.sizeOf_spec, Tree.connective.sizeOf_spec] <;> omega

/-! ## What a node consults and what it adds -/

namespace Node

/-- The positions that the evaluation of a node consults, in order. -/
def consulted : Node → List Nat
  | atom _ _ => []
  | group inner => [inner]
  | comparison _ lhs rhs => [lhs, rhs]
  | connective _ lhs rhs => [lhs, rhs]
  | call name arguments _ =>
    match BuiltIn.lookup? name with
    | none => []
    | some f => (f.select? arguments).toList.map (·.value)

/-- What a node adds to the events of the positions that it consults, given what they came to and
    the line of the node: the failures of the coercions, the left one first, the report of an
    unknown function, or the question of a known one. -/
def ownEvents (value : Nat → Value) (line : Nat) : Node → List Event
  | atom _ _ => []
  | group _ => []
  | comparison c lhs rhs =>
    ((Operator.comparison c).errors (value lhs) (value rhs)).map (CoercionError.event line)
  | connective c lhs rhs =>
    ((Operator.connective c).errors (value lhs) (value rhs)).map (CoercionError.event line)
  | call name arguments line =>
    match BuiltIn.lookup? name with
    | none => [.act (.report (.unknownFunction name line))]
    | some f => [.query (f.query ((f.select? arguments).map fun a => (value a.value).display))]

theorem consulted_node (o : Operator) (lhs rhs : Nat) :
    (o.node lhs rhs).consulted = [lhs, rhs] := by
  cases o <;> rfl

theorem ownEvents_node (o : Operator) (lhs rhs : Nat) (value : Nat → Value) (line : Nat) :
    (o.node lhs rhs).ownEvents value line =
      (o.errors (value lhs) (value rhs)).map (CoercionError.event line) := by
  cases o <;> rfl

end Node

namespace Expression

variable (e : Expression) (answer : Query → Float)

/-- What the position comes to under the given answers. -/
def valueAt (i : Nat) : Value := (e.evaluateWithin e.nodes.size i).value answer

/-- What is seen of the evaluation of the position under the given answers. -/
def eventsAt (i : Nat) : List Event := (e.evaluateWithin e.nodes.size i).events answer

/-- What the node at a position adds to the events of the positions that it consults. -/
def ownEventsAt (i : Nat) : List Event :=
  match e.nodes[i]? with
  | none => []
  | some n => n.ownEvents (e.valueAt answer) (e.lineAt i)

variable {e}

theorem Found.valueAt_eq {i : Nat} {t : Tree} (h : e.Found i t) :
    e.valueAt answer i = t.evaluate.value answer := by
  rw [valueAt, h.evaluate]

theorem Found.eventsAt_eq {i : Nat} {t : Tree} (h : e.Found i t) :
    e.eventsAt answer i = t.evaluate.events answer := by
  rw [eventsAt, h.evaluate]

theorem Found.lineAt_eq {i : Nat} {t : Tree} (h : e.Found i t) : e.lineAt i = t.line := by
  rw [lineAt, h.line, Option.getD_some]

/-- One step of an evaluation: the events of the consulted positions in order, and then those that
    the node adds. -/
theorem Found.step {i : Nat} {t : Tree} (h : e.Found i t) :
    ∃ n, e.nodes[i]? = some n ∧
      (∀ j ∈ n.consulted, ∃ u, e.Found j u ∧ sizeOf u < sizeOf t) ∧
      ∀ answer, e.eventsAt answer i =
        n.consulted.flatMap (e.eventsAt answer) ++ e.ownEventsAt answer i := by
  obtain ⟨n, hn, hunfolds⟩ := h.unfolds
  have hown : ∀ answer, e.ownEventsAt answer i = n.ownEvents (e.valueAt answer) t.line := by
    intro answer
    rw [ownEventsAt, hn]
    dsimp only
    rw [h.lineAt_eq]
  refine ⟨n, hn, ?_⟩
  simp only [hown, h.eventsAt_eq]
  cases t using Tree.evaluated_induct with
  | atom literal line =>
    cases hunfolds
    simp [Node.consulted, Node.ownEvents, Tree.evaluate]
  | group inner =>
    obtain ⟨p, rfl, hp⟩ := hunfolds.of_group
    have hinner := found_of_treeWithin? hp
    refine ⟨?_, fun answer => ?_⟩
    · simp only [Node.consulted, List.mem_singleton, forall_eq]
      exact ⟨inner, hinner, by simp only [Tree.group.sizeOf_spec]; omega⟩
    · simp [Node.consulted, Node.ownEvents, Tree.evaluate, hinner.eventsAt_eq]
  | join o lhs rhs =>
    obtain ⟨p, q, rfl, hp, hq⟩ := hunfolds.of_join
    have hleft := found_of_treeWithin? hp
    have hright := found_of_treeWithin? hq
    refine ⟨?_, fun answer => ?_⟩
    · simp only [Node.consulted_node, List.mem_cons, List.not_mem_nil, or_false, forall_eq_or_imp,
        forall_eq]
      have hsizes := o.sizeOf_lt_join lhs rhs
      exact ⟨⟨lhs, hleft, hsizes.1⟩, ⟨rhs, hright, hsizes.2⟩⟩
    · simp [Node.consulted_node, Node.ownEvents_node, Tree.evaluate_join, Tree.line_join,
        hleft.eventsAt_eq, hright.eventsAt_eq, hleft.valueAt_eq, hright.valueAt_eq]
  | unknown name arguments line hname =>
    obtain ⟨list, rfl, -⟩ := hunfolds.of_call
    simp [Node.consulted, Node.ownEvents, hname, Tree.evaluate_unknown hname]
  | bare name arguments line f hname hchoose =>
    obtain ⟨list, rfl, hlist⟩ := hunfolds.of_call
    have hselect := (BuiltIn.choose?_eq_none_iff hlist).1 hchoose
    simp [Node.consulted, Node.ownEvents, hname, hselect, Tree.evaluate_bare hname hchoose]
  | argument name arguments line f u hname hchoose =>
    obtain ⟨list, rfl, hlist⟩ := hunfolds.of_call
    obtain ⟨a, hselect, ha⟩ := (BuiltIn.choose?_eq_some_iff hlist).1 hchoose
    have hfound := found_of_treeWithin? ha
    refine ⟨?_, fun answer => ?_⟩
    · simp only [Node.consulted, hname, hselect, Option.toList_some, List.map_cons, List.map_nil,
        List.mem_singleton, forall_eq]
      have := BuiltIn.sizeOf_of_choose? hchoose
      exact ⟨u, hfound, by simp only [Tree.call.sizeOf_spec]; omega⟩
    · simp [Node.consulted, Node.ownEvents, hname, hselect, Tree.evaluate_argument hname hchoose,
        hfound.eventsAt_eq, hfound.valueAt_eq]

/-! ## Ways -/

/-- Where a way leads from a position. A way says at each node which of the consulted positions to
    go to. -/
def follow? (e : Expression) : List Nat → Nat → Option Nat
  | [], i => some i
  | k :: way, i => e.nodes[i]?.bind fun n => n.consulted[k]?.bind (e.follow? way)

/-- What the node at the end of a way from a position adds. -/
def ownEventsAlong (e : Expression) (answer : Query → Float) (i : Nat) (way : List Nat) :
    List Event :=
  match e.follow? way i with
  | none => []
  | some j => e.ownEventsAt answer j

/-- An evaluation of the position goes each way from there once. -/
structure Visits (e : Expression) (i : Nat) (ways : List (List Nat)) : Prop where
  nodup : ways.Nodup
  mem_iff : ∀ way, way ∈ ways ↔ (e.follow? way i).isSome
  events : ∀ answer, e.eventsAt answer i = ways.flatMap (e.ownEventsAlong answer i)

theorem follow?_cons {i j k : Nat} {n : Node} (hn : e.nodes[i]? = some n)
    (hj : n.consulted[k]? = some j) (way : List Nat) :
    e.follow? (k :: way) i = e.follow? way j := by
  rw [follow?, hn, Option.bind_some, hj, Option.bind_some]

/-- The ways from a node are the ways from the positions that it consults, one step longer, and
    behind them the way that ends at once. -/
theorem Visits.extend {i : Nat} {n : Node} (hn : e.nodes[i]? = some n)
    {ways : Nat → List (List Nat)} (hways : ∀ j ∈ n.consulted, e.Visits j (ways j))
    (hevents : ∀ answer, e.eventsAt answer i =
      n.consulted.flatMap (e.eventsAt answer) ++ e.ownEventsAt answer i) :
    e.Visits i ((n.consulted.zipIdx.flatMap fun p => (ways p.1).map (p.2 :: ·)) ++ [[]]) := by
  have hvisits : ∀ p ∈ n.consulted.zipIdx, e.Visits p.1 (ways p.1) := fun p hp =>
    hways p.1 (List.fst_mem_of_mem_zipIdx hp)
  have hfollow : ∀ p ∈ n.consulted.zipIdx, ∀ way,
      e.follow? (p.2 :: way) i = e.follow? way p.1 := fun p hp =>
    follow?_cons hn (List.mem_zipIdx_iff_getElem?.1 hp)
  refine ⟨?_, fun way => ?_, fun answer => ?_⟩
  · have hnumbers : n.consulted.zipIdx.Pairwise fun p q => p.2 ≠ q.2 := by
      rw [← List.pairwise_map, List.zipIdx_map_snd]
      exact List.nodup_range'
    refine List.nodup_append.2 ⟨List.nodup_flatMap.2 ⟨fun p hp => ?_, hnumbers.imp ?_⟩,
      List.nodup_singleton _, ?_⟩
    · exact (hvisits p hp).nodup.map fun _ _ heq => (List.cons.inj heq).2
    · simp only [Function.onFun, List.disjoint_left, List.mem_map]
      rintro p q hne _ ⟨w, -, rfl⟩ ⟨w', -, heq⟩
      exact hne (List.cons.inj heq).1.symm
    · simp only [List.mem_flatMap, List.mem_map, List.mem_singleton]
      rintro _ ⟨p, -, w, -, rfl⟩ _ rfl
      exact List.cons_ne_nil _ _
  · cases way with
    | nil => simp [follow?]
    | cons k way =>
      simp only [List.mem_append, List.mem_flatMap, List.mem_map, List.mem_singleton,
        List.cons_ne_nil, or_false, List.cons.injEq]
      constructor
      · rintro ⟨p, hp, w, hw, rfl, rfl⟩
        rw [hfollow p hp]
        exact ((hvisits p hp).mem_iff w).1 hw
      · intro hsome
        rw [follow?, hn, Option.bind_some] at hsome
        cases hj : n.consulted[k]? with
        | none =>
          rw [hj] at hsome
          cases hsome
        | some j =>
          rw [hj, Option.bind_some] at hsome
          have hp : (j, k) ∈ n.consulted.zipIdx := List.mem_zipIdx_iff_getElem?.2 hj
          exact ⟨(j, k), hp, way, ((hvisits _ hp).mem_iff way).2 hsome, rfl, rfl⟩
  · have hnext : ∀ p ∈ n.consulted.zipIdx,
        ((ways p.1).map (p.2 :: ·)).flatMap (e.ownEventsAlong answer i) =
          e.eventsAt answer p.1 := by
      intro p hp
      rw [(hvisits p hp).events, List.flatMap_map]
      refine List.flatMap_congr fun way _ => ?_
      rw [ownEventsAlong, ownEventsAlong, hfollow p hp]
    rw [hevents, List.flatMap_append, List.flatMap_assoc, List.flatMap_congr hnext,
      ← List.flatMap_map Prod.fst, List.zipIdx_map_fst, List.flatMap_singleton]
    rfl

/-- The evaluation of a found position goes each way from there once. -/
theorem Found.exists_visits {i : Nat} {t : Tree} (h : e.Found i t) : ∃ ways, e.Visits i ways := by
  induction hsize : sizeOf t using Nat.strongRecOn generalizing i t with
  | ind size ih =>
    subst hsize
    obtain ⟨n, hn, hconsulted, hevents⟩ := h.step
    have hnext : ∀ j ∈ n.consulted, ∃ ways, e.Visits j ways := by
      intro j hj
      obtain ⟨u, hu, hlt⟩ := hconsulted j hj
      exact ih _ hlt hu rfl
    choose! ways hways using hnext
    exact ⟨_, .extend hn hways hevents⟩

end Expression

/-! ## What a list of nodes stands for -/

/-- The order in which a tree with an operator at its root is evaluated: the left operand, the right
    one, and only then the coercions, again the left one first. -/
structure Tree.LeftToRight : Prop where
  comparison : ∀ (c : Comparison) (lhs rhs : Tree), (Tree.comparison c lhs rhs).evaluate = do
    let left ← lhs.evaluate
    let right ← rhs.evaluate
    let x ← left.coerceNumber lhs.line
    let y ← right.coerceNumber lhs.line
    return .truth (c.holds x y)
  connective : ∀ (c : Connective) (lhs rhs : Tree), (Tree.connective c lhs rhs).evaluate = do
    let left ← lhs.evaluate
    let right ← rhs.evaluate
    let x ← left.coerceBool lhs.line
    let y ← right.coerceBool lhs.line
    return .truth (c.combine x y)

theorem Tree.leftToRight : LeftToRight where
  comparison c lhs rhs := Tree.evaluate_join (.comparison c) lhs rhs
  connective c lhs rhs := Tree.evaluate_join (.connective c) lhs rhs

namespace Expression

variable {e f : Expression}

/-- Nothing tells one list of nodes from the other: not the line, not what is written, and on no
    stage the value or the events of the evaluation. -/
structure Interchangeable (e f : Expression) : Prop where
  line : e.lineAt? e.root = f.lineAt? f.root
  sexpr : e.sexpr = f.sexpr
  evaluate : e.evaluate = f.evaluate
  recording : ∀ r : Recording, e.evaluate.onRecording r = f.evaluate.onRecording r

theorem interchangeable_of_tree? {t : Tree} (ht : e.tree? = some t) (hu : f.tree? = some t) :
    e.Interchangeable f := by
  have hevaluate : e.evaluate = f.evaluate := by rw [evaluate_of_tree? ht, evaluate_of_tree? hu]
  refine ⟨?_, ?_, hevaluate, fun r => by rw [hevaluate]⟩
  · rw [(found_of_treeWithin? ht).line, (found_of_treeWithin? hu).line]
  · exact (found_of_treeWithin? ht).sexpr.trans (found_of_treeWithin? hu).sexpr.symm

/-- **Only the tree counts**: how a sound list of nodes shares and orders them is not to be seen,
    and neither are nodes out of reach. The evaluation is that of the tree, operands from left to
    right, and what it records is what the nodes add at the ends of the ways from the root, each way
    gone once. -/
theorem unfolding_decides (he : e.Sound) (h : e.tree? = f.tree?) :
    e.Interchangeable f ∧ Tree.LeftToRight ∧
      ∃ t ways, e.tree? = some t ∧ e.evaluate = t.evaluate ∧ e.Visits e.root ways ∧
        ∀ r : Recording, (e.evaluate.onRecording r).2 =
          r.append (ways.flatMap (e.ownEventsAlong r.answer e.root)) := by
  obtain ⟨t, ht⟩ := he.exists_tree?
  obtain ⟨ways, hways⟩ := (found_of_treeWithin? ht).exists_visits
  refine ⟨interchangeable_of_tree? ht (h ▸ ht), Tree.leftToRight, t, ways, ht,
    evaluate_of_tree? ht, hways, fun r => ?_⟩
  rw [Performance.onRecording_eq, ← hways.events]
  rfl

/-- A call that both operands share beside a node out of reach, and the same tree with two calls
    behind their parent. -/
theorem unfolding_decides_shared :
    let clock : Node := .call "現在時刻" [] 1
    let e : Expression :=
      ⟨#[clock, .atom (.word "家") 9, .connective .conjunction 0 0], 2, by decide⟩
    let f : Expression := ⟨#[.connective .conjunction 2 1, clock, clock], 0, by decide⟩
    e.Sound ∧ e.tree? = f.tree? ∧ e.Interchangeable f ∧ Tree.LeftToRight ∧
      ∃ t ways, e.tree? = some t ∧ e.evaluate = t.evaluate ∧ e.Visits e.root ways ∧
        ∀ r : Recording, (e.evaluate.onRecording r).2 =
          r.append (ways.flatMap (e.ownEventsAlong r.answer e.root)) := by
  intro clock e f
  have hback : RefersBack e.nodes := by
    intro i n hn j hj
    match i, hn with
    | 0, hn => obtain rfl := Option.some.inj hn; cases hj
    | 1, hn => obtain rfl := Option.some.inj hn; cases hj
    | 2, hn =>
      obtain rfl := Option.some.inj hn
      have hzero : j ∈ [0, 0] := hj
      simp only [List.mem_cons, List.not_mem_nil, or_false, or_self] at hzero
      omega
  have htree : e.tree? = f.tree? := rfl
  exact ⟨sound_of_refersBack hback, htree, unfolding_decides (sound_of_refersBack hback) htree⟩

/-- Both ways to the shared call are gone. -/
example :
    let e : Expression := ⟨#[.call "現在時刻" [] 1, .connective .conjunction 0 0], 1, by decide⟩
    (e.evaluate.onRecording .empty).2.events = #[.query .clock, .query .clock] := rfl

end Expression

end StageScript
