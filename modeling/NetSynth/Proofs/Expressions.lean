import NetSynth.Synthesis.Expr

/-! Induction over expressions, whose lists of parts are covered member by member, and the nets and
functions that an expression names. -/
namespace NetSynth.Expr

@[elab_as_elim]
theorem induction {motive : Expr → Prop}
    (constant : ∀ node value, motive (constant node value))
    (real : ∀ node value, motive (real node value))
    (unary : ∀ node op operand, motive operand → motive (unary node op operand))
    (binary : ∀ node op left right, motive left → motive right →
      motive (binary node op left right))
    (concat : ∀ node parts repeats, (∀ part ∈ parts, motive part) →
      motive (concat node parts repeats))
    (resize : ∀ node operand, motive operand → motive (resize node operand))
    (partSelect : ∀ node vector base, motive vector → motive base →
      motive (partSelect node vector base))
    (conditional : ∀ node condition whenTrue whenFalse, motive condition → motive whenTrue →
      motive whenFalse → motive (conditional node condition whenTrue whenFalse))
    (signal : ∀ node net, motive (signal node net))
    (word : ∀ node memory index, motive index → motive (word node memory index))
    (systemCall : ∀ node name arguments, (∀ argument ∈ arguments, motive argument) →
      motive (systemCall node name arguments))
    (call : ∀ node function scope arguments, (∀ argument ∈ arguments, motive argument) →
      motive (call node function scope arguments))
    (parameter : ∀ node name, motive (parameter node name))
    (scopeRef : ∀ node scope, motive (scopeRef node scope))
    (event : ∀ node, motive (event node)) (expr : Expr) : motive expr := by
  refine @Expr.rec motive (fun parts => ∀ part ∈ parts, motive part) constant real unary binary
    concat resize partSelect conditional signal word systemCall call parameter scopeRef event
    ?_ ?_ expr
  · intro part member
    contradiction
  · intro first rest ofFirst ofRest part member
    rcases List.mem_cons.mp member with rfl | member
    · exact ofFirst
    · exact ofRest part member

theorem operands_eq_map (generation : Generation) (parts : List Expr) :
    operands generation parts = parts.map fun part => ⟨part, build generation part⟩ := by
  induction parts with
  | nil => simp [operands]
  | cons first rest ih => simp [operands, ih]

theorem operands_expr (generation : Generation) (parts : List Expr) :
    (operands generation parts).map (·.expr) = parts := by
  simp [operands_eq_map, Function.comp_def]

mutual

/-- The nets that an expression names, memories included. -/
def nets : Expr → List NetId
  | constant .. | real .. | parameter .. | scopeRef .. | event .. => []
  | unary _ _ operand | resize _ operand => nets operand
  | binary _ _ left right => nets left ++ nets right
  | concat _ parts _ => netsOfAll parts
  | partSelect _ vector base => nets vector ++ nets base
  | conditional _ condition whenTrue whenFalse =>
      nets condition ++ (nets whenTrue ++ nets whenFalse)
  | signal _ net => [net]
  | word _ memory index => memory :: nets index
  | systemCall _ _ arguments | call _ _ _ arguments => netsOfAll arguments

def netsOfAll : List Expr → List NetId
  | [] => []
  | first :: rest => nets first ++ netsOfAll rest

end

theorem netsOfAll_eq_flatMap (parts : List Expr) : netsOfAll parts = parts.flatMap nets := by
  induction parts with
  | nil => simp [netsOfAll]
  | cons first rest ih => simp [netsOfAll, ih]

mutual

/-- The functions that an expression calls. -/
def functions : Expr → List FunctionId
  | constant .. | real .. | signal .. | parameter .. | scopeRef .. | event .. => []
  | unary _ _ operand | resize _ operand | word _ _ operand => functions operand
  | binary _ _ left right => functions left ++ functions right
  | concat _ parts _ => functionsOfAll parts
  | partSelect _ vector base => functions vector ++ functions base
  | conditional _ condition whenTrue whenFalse =>
      functions condition ++ (functions whenTrue ++ functions whenFalse)
  | systemCall _ _ arguments => functionsOfAll arguments
  | call _ function _ arguments => function :: functionsOfAll arguments

def functionsOfAll : List Expr → List FunctionId
  | [] => []
  | first :: rest => functions first ++ functionsOfAll rest

end

theorem functionsOfAll_eq_flatMap (parts : List Expr) :
    functionsOfAll parts = parts.flatMap functions := by
  induction parts with
  | nil => simp [functionsOfAll]
  | cons first rest ih => simp [functionsOfAll, ih]

end NetSynth.Expr
