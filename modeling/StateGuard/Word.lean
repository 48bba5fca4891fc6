/-!
# Word sizes

Numbers that are read from documents and source texts have to fit into words of a fixed size.
-/

namespace StateGuard.Word

/-- The number of values that a word of so many bits can have. -/
def capacity (bits : Nat) : Nat := Nat.pow 2 bits

end StateGuard.Word
