import SparqlGenerate.Plan.Basic
import SparqlGenerate.Proofs.Variables

/-!
# Renaming variables

Variables are renamed wherever they are written in a query or in a plan, those that a scope hides
included. What has no other variables than ones that keep their names stays as it is, so renaming
says which variables a plan may differ in.
-/

namespace SparqlGenerate

/-! ## Variables that keep their names -/

/-- The function leaves the variables as they are. -/
def Fixes (f : Var → Var) (vars : List Var) : Prop :=
  ∀ v ∈ vars, f v = v

variable {f : Var → Var}

@[simp]
theorem fixes_cons {v : Var} {vars : List Var} : Fixes f (v :: vars) ↔ f v = v ∧ Fixes f vars := by
  simp [Fixes]

@[simp]
theorem fixes_append {first second : List Var} :
    Fixes f (first ++ second) ↔ Fixes f first ∧ Fixes f second := by
  simp [Fixes, or_imp, forall_and]

theorem Fixes.mono {vars more : List Var} (h : Fixes f more) (hsubset : vars ⊆ more) :
    Fixes f vars :=
  fun v hv => h v (hsubset hv)

theorem Fixes.map_eq_self {vars : List Var} (h : Fixes f vars) : vars.map f = vars :=
  (List.map_congr_left h).trans (List.map_id vars)

/-- A list stays as it is if each of its members does. -/
theorem map_eq_self_of_fixes {α : Type} {vars : α → List Var} {rename : α → α}
    (hmember : ∀ a, Fixes f (vars a) → rename a = a) {members : List α}
    (h : Fixes f (members.flatMap vars)) : members.map rename = members := by
  have hmembers : ∀ a ∈ members, rename a = a := fun a ha =>
    hmember a fun v hv => h v (List.mem_flatMap.mpr ⟨a, ha, hv⟩)
  exact (List.map_congr_left hmembers).trans (List.map_id members)

/-! ## Terms -/

/-- The term with its variable renamed. -/
def Term.rename (f : Var → Var) : Term → Term
  | .var name => .var (f name)
  | .iri name => .iri name
  | .blank label => .blank label
  | .literal value => .literal value

def VarOrIri.rename (f : Var → Var) : VarOrIri → VarOrIri
  | .var name => .var (f name)
  | .iri name => .iri name

def TriplePattern.rename (f : Var → Var) (triple : TriplePattern) : TriplePattern :=
  ⟨triple.subject.rename f, triple.predicate.rename f, triple.object.rename f⟩

theorem Term.rename_eq_self {term : Term} (h : Fixes f term.vars) : term.rename f = term := by
  cases term with
  | var name => exact congrArg Term.var (h name List.mem_cons_self)
  | iri | blank | literal => rfl

theorem VarOrIri.rename_eq_self {name : VarOrIri} (h : Fixes f name.vars) :
    name.rename f = name := by
  cases name with
  | var name => exact congrArg VarOrIri.var (h name List.mem_cons_self)
  | iri name => rfl

theorem TriplePattern.rename_eq_self {triple : TriplePattern} (h : Fixes f triple.vars) :
    triple.rename f = triple := by
  simp only [vars, fixes_append] at h
  rw [rename, Term.rename_eq_self h.1.1, VarOrIri.rename_eq_self h.1.2, Term.rename_eq_self h.2]

/-! ## Expressions and patterns -/

mutual

/-- The expression with its variables renamed. -/
def Expr.rename (f : Var → Var) : Expr → Expr
  | .iri name => .iri name
  | .literal value => .literal value
  | .var name => .var (f name)
  | .bound name => .bound (f name)
  | .binary op left right => .binary op (left.rename f) (right.rename f)
  | .unary op operand => .unary op (operand.rename f)
  | .oneOf operand members => .oneOf (operand.rename f) (Expr.renameAll f members)
  | .hasSolution pattern => .hasSolution (pattern.rename f)
  | .cond test yes no => .cond (test.rename f) (yes.rename f) (no.rename f)
  | .coalesce operands => .coalesce (Expr.renameAll f operands)
  | .call function arguments => .call function (Expr.renameAll f arguments)

def Expr.renameAll (f : Var → Var) : List Expr → List Expr
  | [] => []
  | e :: rest => e.rename f :: Expr.renameAll f rest

def Aggregate.rename (f : Var → Var) : Aggregate → Aggregate
  | .countSolutions distinct => .countSolutions distinct
  | .apply name operand distinct => .apply name (operand.rename f) distinct

/-- The aggregates with their variables, and those that they assign, renamed. -/
def Aggregate.renameAll (f : Var → Var) : List (Var × Aggregate) → List (Var × Aggregate)
  | [] => []
  | (var, aggregate) :: rest => (f var, aggregate.rename f) :: Aggregate.renameAll f rest

def OrderKey.rename (f : Var → Var) : OrderKey → OrderKey
  | .asc key => .asc (key.rename f)
  | .desc key => .desc (key.rename f)

def OrderKey.renameAll (f : Var → Var) : List OrderKey → List OrderKey
  | [] => []
  | key :: rest => key.rename f :: OrderKey.renameAll f rest

def Pattern.rename (f : Var → Var) : Pattern → Pattern
  | .bgp triples => .bgp (triples.map (TriplePattern.rename f))
  | .path subject path object => .path (subject.rename f) path (object.rename f)
  | .join left right => .join (left.rename f) (right.rename f)
  | .union left right => .union (left.rename f) (right.rename f)
  | .minus left right => .minus (left.rename f) (right.rename f)
  | .leftJoin left right none => .leftJoin (left.rename f) (right.rename f) none
  | .leftJoin left right (some condition) =>
    .leftJoin (left.rename f) (right.rename f) (some (condition.rename f))
  | .filter condition inner => .filter (condition.rename f) (inner.rename f)
  | .graph name inner => .graph (name.rename f) (inner.rename f)
  | .service name inner silent => .service (name.rename f) (inner.rename f) silent
  | .extend inner var value => .extend (inner.rename f) (f var) (value.rename f)
  -- The rows are constants.
  | .values vars rows => .values (vars.map f) rows
  | .orderBy inner keys => .orderBy (inner.rename f) (OrderKey.renameAll f keys)
  | .project inner vars => .project (inner.rename f) (vars.map f)
  | .distinct inner => .distinct (inner.rename f)
  | .reduced inner => .reduced (inner.rename f)
  | .slice inner start length => .slice (inner.rename f) start length
  | .group inner keys aggregates =>
    .group (inner.rename f) (keys.map f) (Aggregate.renameAll f aggregates)

end

theorem Expr.renameAll_eq_map (f : Var → Var) (es : List Expr) :
    renameAll f es = es.map (Expr.rename f) := by
  induction es with
  | nil => rfl
  | cons e rest ih => rw [renameAll, ih, List.map_cons]

mutual

/-- An expression whose variables keep their names stays as it is. -/
theorem Expr.rename_eq_self : ∀ e : Expr, Fixes f e.vars → e.rename f = e
  | .iri _, _ | .literal _, _ => rfl
  | .var name, h => congrArg Expr.var (h name List.mem_cons_self)
  | .bound name, h => congrArg Expr.bound (h name List.mem_cons_self)
  | .unary _ operand, h => by rw [Expr.rename, operand.rename_eq_self h]
  | .hasSolution pattern, h => by rw [Expr.rename, pattern.rename_eq_self h]
  | .coalesce operands, h => by rw [Expr.rename, Expr.renameAll_eq_self operands h]
  | .call _ arguments, h => by rw [Expr.rename, Expr.renameAll_eq_self arguments h]
  | .binary _ left right, h => by
      rw [Expr.vars, fixes_append] at h
      rw [Expr.rename, left.rename_eq_self h.1, right.rename_eq_self h.2]
  | .oneOf operand members, h => by
      rw [Expr.vars, fixes_append] at h
      rw [Expr.rename, operand.rename_eq_self h.1, Expr.renameAll_eq_self members h.2]
  | .cond test yes no, h => by
      simp only [Expr.vars, fixes_append] at h
      rw [Expr.rename, test.rename_eq_self h.1.1, yes.rename_eq_self h.1.2,
        no.rename_eq_self h.2]

theorem Expr.renameAll_eq_self : ∀ es : List Expr, Fixes f (Expr.varsAll es) →
    Expr.renameAll f es = es
  | [], _ => rfl
  | e :: rest, h => by
      rw [Expr.varsAll, fixes_append] at h
      rw [Expr.renameAll, e.rename_eq_self h.1, Expr.renameAll_eq_self rest h.2]

theorem Aggregate.rename_eq_self : ∀ aggregate : Aggregate, Fixes f aggregate.vars →
    aggregate.rename f = aggregate
  | .countSolutions _, _ => rfl
  | .apply _ operand _, h => by rw [Aggregate.rename, operand.rename_eq_self h]

theorem Aggregate.renameAll_eq_self : ∀ aggregates : List (Var × Aggregate),
    Fixes f (Aggregate.varsAll aggregates) → Aggregate.renameAll f aggregates = aggregates
  | [], _ => rfl
  | (var, aggregate) :: rest, h => by
      simp only [Aggregate.varsAll, List.cons_append, fixes_cons, fixes_append] at h
      obtain ⟨hvar, haggregate, hrest⟩ := h
      rw [Aggregate.renameAll, hvar, aggregate.rename_eq_self haggregate,
        Aggregate.renameAll_eq_self rest hrest]

theorem OrderKey.rename_eq_self : ∀ key : OrderKey, Fixes f key.vars → key.rename f = key
  | .asc key, h => by rw [OrderKey.rename, key.rename_eq_self h]
  | .desc key, h => by rw [OrderKey.rename, key.rename_eq_self h]

theorem OrderKey.renameAll_eq_self : ∀ keys : List OrderKey, Fixes f (OrderKey.varsAll keys) →
    OrderKey.renameAll f keys = keys
  | [], _ => rfl
  | key :: rest, h => by
      rw [OrderKey.varsAll, fixes_append] at h
      rw [OrderKey.renameAll, key.rename_eq_self h.1, OrderKey.renameAll_eq_self rest h.2]

theorem Pattern.rename_eq_self : ∀ pattern : Pattern, Fixes f pattern.vars →
    pattern.rename f = pattern
  | .bgp triples, h =>
      congrArg Pattern.bgp (map_eq_self_of_fixes (fun _ => TriplePattern.rename_eq_self) h)
  | .path subject path object, h => by
      rw [Pattern.vars, fixes_append] at h
      rw [Pattern.rename, subject.rename_eq_self h.1, object.rename_eq_self h.2]
  | .join left right, h | .union left right, h | .minus left right, h
  | .leftJoin left right none, h => by
      simp only [Pattern.vars, fixes_append] at h
      rw [Pattern.rename, left.rename_eq_self h.1, right.rename_eq_self h.2]
  | .leftJoin left right (some condition), h => by
      simp only [Pattern.vars, fixes_append] at h
      rw [Pattern.rename, left.rename_eq_self h.1.1, right.rename_eq_self h.1.2,
        condition.rename_eq_self h.2]
  | .filter condition inner, h => by
      rw [Pattern.vars, fixes_append] at h
      rw [Pattern.rename, condition.rename_eq_self h.1, inner.rename_eq_self h.2]
  | .graph name inner, h | .service name inner _, h => by
      simp only [Pattern.vars, fixes_append] at h
      rw [Pattern.rename, name.rename_eq_self h.1, inner.rename_eq_self h.2]
  | .extend inner var value, h => by
      rw [Pattern.vars, fixes_append, fixes_cons] at h
      rw [Pattern.rename, inner.rename_eq_self h.1, h.2.1, value.rename_eq_self h.2.2]
  | .values _ rows, h => congrArg (Pattern.values · rows) (Fixes.map_eq_self h)
  | .orderBy inner keys, h => by
      rw [Pattern.vars, fixes_append] at h
      rw [Pattern.rename, inner.rename_eq_self h.1, OrderKey.renameAll_eq_self keys h.2]
  | .project inner vars, h => by
      rw [Pattern.vars, fixes_append] at h
      rw [Pattern.rename, inner.rename_eq_self h.1, Fixes.map_eq_self h.2]
  | .distinct inner, h | .reduced inner, h | .slice inner _ _, h => by
      rw [Pattern.rename, inner.rename_eq_self h]
  | .group inner keys aggregates, h => by
      simp only [Pattern.vars, fixes_append] at h
      rw [Pattern.rename, inner.rename_eq_self h.1.1, Fixes.map_eq_self h.1.2,
        Aggregate.renameAll_eq_self aggregates h.2]

end

/-! ## Queries -/

def Clause.rename (f : Var → Var) : Clause → Clause
  | .iterator value vars => .iterator (value.rename f) (vars.map f)
  | .source document accept var =>
    .source (document.rename f) (accept.map (Term.rename f)) (f var)
  | .bind value var => .bind (value.rename f) (f var)

def TemplateTerm.rename (f : Var → Var) : TemplateTerm → TemplateTerm
  | .term t => .term (t.rename f)
  | .embedded value => .embedded (value.rename f)

def TemplateTriple.rename (f : Var → Var) (triple : TemplateTriple) : TemplateTriple :=
  ⟨triple.subject.rename f, triple.predicate.rename f, triple.object.rename f⟩

mutual

/-- The query with its variables, and those of the queries nested in it, renamed. -/
def Query.rename (f : Var → Var) : Query → Query
  | ⟨form, base, dataset, name, signature, clauses, pattern⟩ =>
    ⟨form.rename f, base, dataset, name, signature.map (List.map f),
      clauses.map (Clause.rename f), pattern.rename f⟩

def Form.rename (f : Var → Var) : Form → Form
  | .select => .select
  | .template => .template
  | .generate elements => .generate (Element.renameAll f elements)
  | .call name parameters => .call (name.rename f) (parameters.map (Expr.rename f))

def Element.rename (f : Var → Var) : Element → Element
  | .triples triples => .triples (triples.map (TemplateTriple.rename f))
  | .query q => .query (q.rename f)

def Element.renameAll (f : Var → Var) : List Element → List Element
  | [] => []
  | element :: rest => element.rename f :: Element.renameAll f rest

end

theorem Clause.rename_eq_self {clause : Clause} (h : Fixes f clause.vars) :
    clause.rename f = clause := by
  cases clause with
  | iterator value vars =>
      rw [Clause.vars, fixes_append] at h
      rw [rename, value.rename_eq_self h.1, h.2.map_eq_self]
  | bind value var =>
      rw [Clause.vars, fixes_append, fixes_cons] at h
      rw [rename, value.rename_eq_self h.1, h.2.1]
  | source document accept var =>
      simp only [Clause.vars, fixes_append, fixes_cons] at h
      obtain ⟨⟨hdocument, haccept⟩, hvar, -⟩ := h
      rw [rename, document.rename_eq_self hdocument, hvar]
      cases accept with
      | none => rfl
      | some term => rw [Option.map_some, term.rename_eq_self haccept]

theorem TemplateTerm.rename_eq_self {term : TemplateTerm} (h : Fixes f term.vars) :
    term.rename f = term := by
  cases term with
  | term t => exact congrArg TemplateTerm.term (t.rename_eq_self h)
  | embedded value => exact congrArg TemplateTerm.embedded (value.rename_eq_self h)

theorem TemplateTriple.rename_eq_self {triple : TemplateTriple} (h : Fixes f triple.vars) :
    triple.rename f = triple := by
  simp only [vars, fixes_append] at h
  rw [rename, TemplateTerm.rename_eq_self h.1.1, TemplateTerm.rename_eq_self h.1.2,
    TemplateTerm.rename_eq_self h.2]

theorem Fixes.map_signature {signature : Option (List Var)} (h : Fixes f (signature.getD [])) :
    signature.map (List.map f) = signature := by
  cases signature with
  | none => rfl
  | some vars => exact congrArg some h.map_eq_self

mutual

/-- A query whose variables keep their names stays as it is. -/
theorem Query.rename_eq_self : ∀ query : Query, Fixes f query.vars → query.rename f = query
  | ⟨form, base, dataset, name, signature, clauses, pattern⟩, h => by
      simp only [Query.vars, fixes_append] at h
      obtain ⟨⟨⟨hform, hsignature⟩, hclauses⟩, hpattern⟩ := h
      rw [Query.rename, form.rename_eq_self hform, hsignature.map_signature,
        map_eq_self_of_fixes (fun _ => Clause.rename_eq_self) hclauses,
        pattern.rename_eq_self hpattern]

theorem Form.rename_eq_self : ∀ form : Form, Fixes f form.vars → form.rename f = form
  | .select, _ | .template, _ => rfl
  | .generate elements, h => congrArg Form.generate (Element.renameAll_eq_self elements h)
  | .call name parameters, h => by
      rw [Form.vars, fixes_append] at h
      rw [Form.rename, name.rename_eq_self h.1,
        map_eq_self_of_fixes (fun e => Expr.rename_eq_self e) h.2]

theorem Element.rename_eq_self : ∀ element : Element, Fixes f element.vars →
    element.rename f = element
  | .triples _, h =>
      congrArg Element.triples (map_eq_self_of_fixes (fun _ => TemplateTriple.rename_eq_self) h)
  | .query q, h => congrArg Element.query (q.rename_eq_self h)

theorem Element.renameAll_eq_self : ∀ elements : List Element,
    Fixes f (Element.varsAll elements) → Element.renameAll f elements = elements
  | [], _ => rfl
  | element :: rest, h => by
      rw [Element.varsAll, fixes_append] at h
      rw [Element.renameAll, element.rename_eq_self h.1, Element.renameAll_eq_self rest h.2]

end

/-! ## Plans -/

def Binding.rename (f : Var → Var) : Binding → Binding
  | .iterator mode function arguments vars =>
    .iterator mode function (arguments.map (Expr.rename f)) (vars.map f)
  | .source document accept var =>
    .source (document.rename f) (accept.map (VarOrIri.rename f)) (f var)
  | .bind value var => .bind (value.rename f) (f var)

def SelectQuery.rename (f : Var → Var) (query : SelectQuery) : SelectQuery :=
  { query with pattern := query.pattern.rename f }

def SelectPlan.rename (f : Var → Var) (plan : SelectPlan) : SelectPlan :=
  { plan with query := plan.query.rename f, parameters := plan.parameters.map f }

def CallPlan.rename (f : Var → Var) (plan : CallPlan) : CallPlan :=
  { plan with name := plan.name.rename f, parameters := plan.parameters.map (Expr.rename f) }

mutual

/-- The plan with the variables of all its nodes renamed. -/
def Plan.rename (f : Var → Var) : Plan → Plan
  | ⟨source, bindings, select, output, isTop⟩ =>
    ⟨source.rename f, bindings.map (Binding.rename f), select.rename f,
      Output.renameIn f output, isTop⟩

/-- The output of a plan, if there is one, with its variables renamed. -/
def Output.renameIn (f : Var → Var) : Option Output → Option Output
  | none => none
  | some output => some (output.rename f)

def Output.rename (f : Var → Var) : Output → Output
  | .call call => .call (call.rename f)
  | .template elements => .template (PlanElement.renameAll f elements)

def PlanElement.rename (f : Var → Var) : PlanElement → PlanElement
  | .triples triples => .triples (triples.map (TriplePattern.rename f))
  | .plan p => .plan (p.rename f)

def PlanElement.renameAll (f : Var → Var) : List PlanElement → List PlanElement
  | [] => []
  | element :: rest => element.rename f :: PlanElement.renameAll f rest

end

end SparqlGenerate
