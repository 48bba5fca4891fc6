/-!
# Message templates

A template holds places for arguments: an argument number between braces. Filling goes through
the template once. An argument is copied as it is, so braces inside it are never places, and a
brace of the template that opens no place stays where it stands.
-/

namespace StateGuard.Text

/-- The value of a sequence of decimal digits; `none` for an empty sequence or another
character. -/
def decimal? (digits : List Char) : Option Nat :=
  if digits.isEmpty || !digits.all Char.isDigit then none
  else some (digits.foldl (fun n d => 10 * n + (d.toNat - '0'.toNat)) 0)

/-- An argument number: decimal digits, with an optional plus sign. -/
def placeIndex? : List Char → Option Nat
  | '+' :: digits => decimal? digits
  | digits => decimal? digits

/-- The argument named by the text up to the first closing brace, and what follows that brace. -/
def place? (args : List String) (rest : List Char) : Option (String × List Char) :=
  match rest.dropWhile (· ≠ '\x7d') with
  | [] => none
  | _ :: after => do
    let index ← placeIndex? (rest.takeWhile (· ≠ '\x7d'))
    let arg ← args[index]?
    return (arg, after)

theorem length_dropWhile_le {α : Type} (p : α → Bool) (xs : List α) :
    (xs.dropWhile p).length ≤ xs.length := by
  induction xs with
  | nil => simp
  | cons x xs ih =>
      simp only [List.dropWhile_cons]
      split
      · simp only [List.length_cons]
        omega
      · simp

/-- What follows a place is shorter than the text that held it. -/
theorem place?_shorter {args : List String} {rest after : List Char} {arg : String}
    (h : place? args rest = some (arg, after)) : after.length < rest.length := by
  have hDrop := length_dropWhile_le (fun c => decide (c ≠ '\x7d')) rest
  unfold place? at h
  split at h
  · simp at h
  · next hEq =>
      simp only [Option.bind_eq_bind, Option.bind_eq_some_iff, Option.pure_def, Option.some.injEq,
        Prod.mk.injEq] at h
      obtain ⟨_, _, _, _, _, rfl⟩ := h
      rw [hEq] at hDrop
      simp only [List.length_cons] at hDrop
      omega

/-- Fill the places of a template, given as characters. -/
def fillChars (args : List String) (template : List Char) : List Char :=
  match template with
  | [] => []
  | c :: rest =>
    if c = '\x7b' then
      match _h : place? args rest with
      | some (arg, after) => arg.toList ++ fillChars args after
      | none => c :: fillChars args rest
    else c :: fillChars args rest
termination_by template.length
decreasing_by
  · have := place?_shorter _h
    simp only [List.length_cons]
    omega
  · simp
  · simp

/-- Fill the places of a template. -/
def fillTemplate (template : String) (args : List String) : String :=
  String.ofList (fillChars args template.toList)

end StateGuard.Text
