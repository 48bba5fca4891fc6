import StateGuard.Proofs.Semantics.Scoping

/-!
# Environments

Which declaration a name stands for at a node, read off the tree alone, whatever the shape of the
tree: units inside units, parameters that are none, members that declare nothing.  `leave env i` is
what is in scope behind a node that is entered with `env`, and `envAt i` is what is in scope where
node `i` is bound; `resolve? i` is the declaration that `i` stands for there.

## Main results

* `envAt_of_boundParts`, `leave_envAt`: a node part by part.
* `envAt_stripParens`, `leave_stripParens`: parentheses around an expression.
-/

namespace StateGuard

namespace Node

variable {ι : Type}

/-- The name that a node declares or is looked up by. -/
def spelling? : Node ι → Option String
  | .identifier name => some name
  | .memberAccess _ member => some member
  | node => node.declaredName?

/-- The parts that are bound. Those of a method or lambda that are declared instead are left out. -/
def boundParts : Node ι → List ι
  | .method _ _ _ body _ => [body]
  | .lambda _ body _ => [body]
  | node => node.children

theorem boundParts_sublist (node : Node ι) : node.boundParts.Sublist node.children := by
  cases node <;> simp [boundParts, children]

end Node

/-- What names stand for: the names in scope, and the fields of the unit. -/
structure Env (ι : Type) where
  scopes : Scopes ι := .empty
  fields : Scope ι := []

namespace Arena

variable (arena : Arena)

/-- A member of a unit is declared before any of them is bound; a field can be read through the
enclosing object, too. -/
def enterMember (env : Env arena.Id) (member : arena.Id) : Env arena.Id :=
  match arena.node member with
  | .method name .. => { env with scopes := env.scopes.declare name member }
  | .localDeclaration name .. =>
    ⟨env.scopes.declare name member, env.fields.insert name member⟩
  | _ => env

/-- A parameter is declared when its method or lambda is entered. -/
def enterParameter (env : Env arena.Id) (param : arena.Id) : Env arena.Id :=
  match arena.node param with
  | .parameter name _ => { env with scopes := env.scopes.declare name param }
  | _ => env

/-- What is in scope where the first part of a node is bound. -/
def enter (env : Env arena.Id) (i : arena.Id) : Env arena.Id :=
  match arena.node i with
  | .compilationUnit members => members.foldl arena.enterMember env
  | .method _ _ params _ _ =>
    params.foldl arena.enterParameter { env with scopes := env.scopes.push }
  | .lambda params _ _ =>
    params.foldl arena.enterParameter { env with scopes := env.scopes.push }
  | .block _ => { env with scopes := env.scopes.push }
  | _ => env

/-- What is in scope behind a node, given what is around it and what is behind its last part. -/
def close (around inner : Env arena.Id) (i : arena.Id) : Env arena.Id :=
  match arena.node i with
  | .method .. => { inner with scopes := around.scopes }
  | .lambda .. => { inner with scopes := around.scopes }
  | .block _ => { inner with scopes := around.scopes }
  | .localDeclaration name .. => { inner with scopes := inner.scopes.declare name i }
  | .outVariable name _ => { inner with scopes := inner.scopes.declare name i }
  | _ => inner

/-- What is in scope behind a node that is bound with `env`. -/
def leave (env : Env arena.Id) (i : arena.Id) : Env arena.Id :=
  arena.close env
    ((arena.node i).boundParts.attach.foldl (fun env c => leave env c.1) (arena.enter env i)) i
termination_by arena.height i
decreasing_by
  exact height_lt_of_mem_children ((Node.boundParts_sublist _).subset c.2)

/-- What is in scope where a node is bound. -/
def envAt (i : arena.Id) : Env arena.Id :=
  match _h : arena.parent i with
  | none => {}
  | some p =>
    ((arena.node p).boundParts.takeWhile (· ≠ i)).foldl arena.leave (arena.enter (envAt p) p)
termination_by arena.depth i
decreasing_by exact depth_lt_of_parent _h

/-- The declaration that a node stands for: itself, or what its name means. A member access means a
field if it reads it from the enclosing object. -/
def resolve? (i : arena.Id) : Option arena.Id :=
  match arena.node i with
  | .identifier name => (arena.envAt i).scopes.lookup name
  | .memberAccess receiver member =>
    if arena.isThis receiver then (arena.envAt i).fields.find? member else none
  | node => node.declaredName?.map fun _ => i

variable {arena} {i c p : arena.Id} {env : Env arena.Id}

theorem leave_eq (env : Env arena.Id) (i : arena.Id) : arena.leave env i =
    arena.close env ((arena.node i).boundParts.foldl arena.leave (arena.enter env i)) i := by
  rw [leave]
  simp

theorem envAt_of_parent_none (hParent : arena.parent i = none) : arena.envAt i = {} := by
  rw [envAt]
  split
  · rfl
  · next hSome => simp [hParent] at hSome

theorem envAt_of_parent (hParent : arena.parent i = some p) : arena.envAt i =
    ((arena.node p).boundParts.takeWhile (· ≠ i)).foldl arena.leave
      (arena.enter (arena.envAt p) p) := by
  rw [envAt]
  split
  · next hNone => simp [hParent] at hNone
  · next q hSome =>
      obtain rfl : q = p := Option.some.inj (hSome.symm.trans hParent)
      rfl

/-! ## Progress through the parts of a node -/

/-- What is in scope when some parts of a node have been bound. -/
def progressEnv (i : arena.Id) (done : List arena.Id) : Env arena.Id :=
  done.foldl arena.leave (arena.enter (arena.envAt i) i)

theorem progressEnv_append (i c : arena.Id) (done : List arena.Id) :
    progressEnv i (done ++ [c]) = arena.leave (progressEnv i done) c := by
  simp [progressEnv]

/-- A part of a node is bound when the parts before it have been. -/
theorem envAt_of_boundParts {done rest : List arena.Id}
    (hSplit : (arena.node i).boundParts = done ++ c :: rest) :
    arena.envAt c = progressEnv i done := by
  have hSublist := Node.boundParts_sublist (arena.node i)
  have hNodup := (arena.children_nodup i).sublist hSublist
  have hMem : c ∈ (arena.node i).children := hSublist.subset (by simp [hSplit])
  rw [envAt_of_parent ((arena.parent_eq_some_iff c i).2 hMem), progressEnv]
  rw [hSplit] at hNodup ⊢
  have hDone : ∀ e ∈ done, e ≠ c := by
    rintro e he rfl
    exact (List.nodup_append.1 hNodup).2.2 e he e List.mem_cons_self rfl
  rw [List.takeWhile_append_of_pos (by simpa using hDone), List.takeWhile_cons_of_neg (by simp),
    List.append_nil]

/-- Behind a node its scopes are closed. -/
theorem leave_envAt (i : arena.Id) : arena.leave (arena.envAt i) i =
    arena.close (arena.envAt i) (progressEnv i (arena.node i).boundParts) i := leave_eq ..

/-! ## Plain nodes -/

/-- A node that is transparent: what is in scope around it is in scope in it, and what is in scope
in it is in scope behind it. -/
def isOpen {ι : Type} : Node ι → Bool
  | .compilationUnit .. => false
  | .method .. => false
  | .lambda .. => false
  | .block .. => false
  | .localDeclaration .. => false
  | .outVariable .. => false
  | _ => true

theorem enter_of_isOpen (h : isOpen (arena.node i) = true) (env : Env arena.Id) :
    arena.enter env i = env := by
  unfold enter
  cases hNode : arena.node i <;> simp_all [isOpen]

theorem close_of_isOpen (h : isOpen (arena.node i) = true) (around inner : Env arena.Id) :
    arena.close around inner i = inner := by
  unfold close
  cases hNode : arena.node i <;> simp_all [isOpen]

theorem progressEnv_nil_of_isOpen (h : isOpen (arena.node i) = true) :
    progressEnv i [] = arena.envAt i := enter_of_isOpen h _

theorem leave_of_isOpen (h : isOpen (arena.node i) = true) (env : Env arena.Id) :
    arena.leave env i = (arena.node i).boundParts.foldl arena.leave env := by
  rw [leave_eq, close_of_isOpen h, enter_of_isOpen h]

/-- An expression and the parentheses around it are bound with the same names in scope, and leave
the same names behind. -/
theorem envAt_stripParens (c : arena.Id) : arena.envAt (arena.stripParens c) = arena.envAt c := by
  fun_induction stripParens with
  | case1 c inner h ih =>
      have hSplit : (arena.node c).boundParts = [] ++ inner :: [] := by rw [h]; rfl
      rw [ih, envAt_of_boundParts hSplit, progressEnv_nil_of_isOpen (by rw [h]; rfl)]
  | case2 c h => rfl

theorem leave_stripParens (env : Env arena.Id) (c : arena.Id) :
    arena.leave env (arena.stripParens c) = arena.leave env c := by
  fun_induction stripParens with
  | case1 c inner h ih =>
      rw [ih, leave_of_isOpen (i := c) (by rw [h]; rfl), h]
      rfl
  | case2 c h => rfl

end Arena

end StateGuard
