import Baby.Proofs.Evaluation
import Baby.Proofs.GrammarSound
import Baby.Proofs.Scanning

/-! Trees that come out of the parser: a program, and inside it no other. Names are bound anew in them only
where the source has the sign for that. -/
namespace Baby

/-! Trees without programs inside -/

inductive Tree.Every (p : Tree → Prop) : Tree → Prop where
  | node {t} (here : p t) (parts : ∀ u ∈ t.parts, Every p u) : Every p t

theorem everyHereditary (p : Tree → Prop) : Hereditary (Tree.Every p) := by
  intro t h
  cases h with
  | node _ parts => exact parts

theorem Tree.Every.mono {p q : Tree → Prop} {t : Tree} (h : t.Every p) (imp : ∀ u, p u → q u) :
    t.Every q := by
  induction h with
  | node here _ ih => exact .node (imp _ here) ih

def Tree.isProgram : Tree → Bool
  | .program .. => true
  | _ => false

def Tree.Inner : Tree → Prop := Tree.Every fun t => t.isProgram = false

/- Besides, names are bound anew only if `ref`. -/
def Tree.Built (ref : Prop) : Tree → Prop :=
  Tree.Every fun t => t.isProgram = false ∧ ∀ name, t.Rebinds name → ref

def Phrase.trees : Phrase → List Tree
  | expression _ t | operand _ t | opening t | condition t | block t | statement t => [t]
  | items ts | list _ ts | statements ts => ts
  | pairs ps => ps.map Prod.fst ++ ps.map Prod.snd
  | names _ | params _ => []

section
variable {ref : Prop} {t : Tree}

theorem builtOf (inner : t.isProgram = false) (rebinds : ∀ name, t.Rebinds name → ref)
    (parts : ∀ u ∈ t.parts, u.Built ref) : t.Built ref := .node ⟨inner, rebinds⟩ parts

theorem atomBuilt {tok : Token} {e : Tree} (h : Atom tok e) : e.Built ref := by
  cases h <;> exact builtOf rfl (fun _ binds => binds.elim) (by simp [Tree.parts])

theorem assignOpReference {tok : Token} {op : Op} (operator : tok.kind.assignOp? = some op)
    (again : op = .assignRef) : tok.kind = .sign .assignRef := by
  subst again
  cases kind : tok.kind with
  | sign s =>
    rw [kind] at operator
    cases s <;> first | rfl | cases operator
  | _ =>
    rw [kind] at operator
    cases operator

theorem derivesBuilt {phrase : Phrase} {ts : List Token} {next : Kind} (h : Derives phrase ts next)
    (refs : ∀ tok ∈ ts, tok.kind = .sign .assignRef → ref) : ∀ t ∈ phrase.trees, t.Built ref := by
  induction h with
  | noItems | noPairs | lastName | moreNames | noParams | someParams | noStatements =>
    simp [Phrase.trees]
  | expression _ _ ih | opened _ ih | lastItem _ ih => exact ih refs
  | group _ _ _ ih | someItems _ _ ih | condition _ _ _ ih =>
    exact ih fun tok member => refs tok (by simp [member])
  | atom atom =>
    simp only [Phrase.trees, List.mem_singleton, forall_eq]
    exact atomBuilt atom
  | moreItems _ _ _ ih ih' | someStatements _ _ ih ih' =>
    have first := ih fun tok member => refs tok (by simp [member])
    have others := ih' fun tok member => refs tok (by simp [member])
    simp only [Phrase.trees, List.mem_singleton, forall_eq, List.forall_mem_cons] at first others ⊢
    exact ⟨first, others⟩
  | lastPair _ _ _ _ ih ih' =>
    have key := ih fun tok member => refs tok (by simp [member])
    have value := ih' fun tok member => refs tok (by simp [member])
    simp only [Phrase.trees, List.mem_singleton, forall_eq] at key value
    simp [Phrase.trees, key, value]
  | morePairs _ _ _ _ _ ih ih' ih'' =>
    have key := ih fun tok member => refs tok (by simp [member])
    have value := ih' fun tok member => refs tok (by simp [member])
    have others := ih'' fun tok member => refs tok (by simp [member])
    simp only [Phrase.trees, List.mem_singleton, forall_eq, List.forall_mem_append] at key value others
    simp only [Phrase.trees, List.map_cons, List.forall_mem_append, List.forall_mem_cons]
    exact ⟨⟨key, others.1⟩, value, others.2⟩
  | returnNull =>
    simp only [Phrase.trees, List.mem_singleton, forall_eq]
    refine builtOf rfl (fun _ binds => binds.elim) ?_
    simp only [Tree.parts, List.mem_singleton, forall_eq]
    exact builtOf rfl (fun _ binds => binds.elim) (by simp [Tree.parts])
  | cond _ _ _ ih ih' =>
    have test := ih fun tok member => refs tok (by simp [member])
    have yes := ih' fun tok member => refs tok (by simp [member])
    simp only [Phrase.trees, List.mem_singleton, forall_eq] at test yes ⊢
    refine builtOf rfl (fun _ binds => binds.elim) ?_
    simp only [Tree.parts, List.forall_mem_cons, List.not_mem_nil, false_implies, implies_true, and_true]
    exact ⟨test, yes, builtOf rfl (fun _ binds => binds.elim) (by simp [Tree.parts])⟩
  | array _ _ ih | hash _ _ ih | block _ _ _ ih =>
    simp only [Phrase.trees, List.mem_singleton, forall_eq]
    exact builtOf rfl (fun _ binds => binds.elim) (ih fun tok member => refs tok (by simp [member]))
  | call _ _ _ _ ih ih' =>
    have function := ih fun tok member => refs tok (by simp [member])
    have args := ih' fun tok member => refs tok (by simp [member])
    simp only [Phrase.trees, List.mem_singleton, forall_eq] at function ⊢
    refine builtOf rfl (fun _ binds => binds.elim) ?_
    simp only [Tree.parts, List.forall_mem_cons]
    exact ⟨function, args⟩
  | define _ _ operator _ _ ih | assign _ operator _ _ ih =>
    have value := ih fun tok member => refs tok (by simp [member])
    simp only [Phrase.trees, List.mem_singleton, forall_eq] at value ⊢
    refine builtOf rfl (fun name binds => ?_) (by simp [Tree.parts, value])
    exact refs _ (by simp) (assignOpReference operator binds.2)
  | unary _ _ _ ih | returnValue _ _ _ ih | bare _ _ ih =>
    have inner := ih fun tok member => refs tok (by simp at member ⊢; grind)
    simp only [Phrase.trees, List.mem_singleton, forall_eq] at inner ⊢
    exact builtOf rfl (fun _ binds => binds.elim) (by simp [Tree.parts, inner])
  | function _ _ _ _ _ ih =>
    have body := ih fun tok member => refs tok (by simp [member])
    simp only [Phrase.trees, List.mem_singleton, forall_eq] at body ⊢
    exact builtOf rfl (fun _ binds => binds.elim) (by simp [Tree.parts, body])
  | condElse _ _ _ _ _ ih ih' ih'' =>
    have test := ih fun tok member => refs tok (by simp [member])
    have yes := ih' fun tok member => refs tok (by simp [member])
    have no := ih'' fun tok member => refs tok (by simp [member])
    simp only [Phrase.trees, List.mem_singleton, forall_eq] at test yes no ⊢
    exact builtOf rfl (fun _ binds => binds.elim) (by simp [Tree.parts, test, yes, no])
  | _ =>
    rename_i ih ih'
    have left := ih fun tok member => refs tok (by simp [member])
    have right := ih' fun tok member => refs tok (by simp [member])
    simp only [Phrase.trees, List.mem_singleton, forall_eq] at left right ⊢
    exact builtOf rfl (fun _ binds => binds.elim) (by simp [Tree.parts, left, right])

end

/-! Programs -/

theorem parsedBuilt {source : String} {tree : Tree} {ref : Prop} (h : parse source = .ok ⟨tree, []⟩)
    (refs : ∀ tok ∈ tokenize source, tok.kind = .sign .assignRef → ref) :
    ∃ body line, tree = .program body line ∧ ∀ t ∈ body, t.Built ref := by
  obtain ⟨ts, finish, tokens, ended, _⟩ := scansEnd (tokenizeScans source)
  rw [tokens] at refs
  unfold parse parseTokens at h
  rw [tokens, Cursor.ofTokensConcat] at h
  rcases Parser.programRuns ⟨ts, finish, []⟩ ended with ⟨_, run, _⟩ | ⟨t, c', run, _, post⟩
  · rw [run] at h
    cases h
  · rw [run] at h
    obtain ⟨same, clean⟩ := Parsed.mk.inj (Except.ok.inj h)
    obtain ⟨_, us, split, body, derived, built⟩ := post clean
    refine ⟨body, _, same ▸ built, derivesBuilt derived fun tok member => refs tok ?_⟩
    have whole : ts = us ++ c'.ahead := split
    simp [whole, member]

theorem parsedProgram {source : String} {tree : Tree} (h : parse source = .ok ⟨tree, []⟩) :
    ∃ body line, tree = .program body line ∧ ∀ t ∈ body, t.Inner := by
  obtain ⟨body, line, same, built⟩ := parsedBuilt h fun _ _ _ => trivial
  exact ⟨body, line, same, fun t member => (built t member).mono fun _ both => both.1⟩

end Baby
