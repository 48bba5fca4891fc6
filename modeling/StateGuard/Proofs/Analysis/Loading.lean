import StateGuard.Analysis.Folder
import StateGuard.Proofs.Dump.RoundTrip
import StateGuard.Proofs.Source.Postorder

/-!
# How the loading of a file ends

A file is loaded as a source text or as the dump of a unit, by its name.  What comes of it has been
checked; otherwise there is a fault, and seven ways lead to one.  Each gives the fault a kind and, but
for one, a file.

Two of them are not what one would expect.  A dump that cannot be read leaves the file out, although a
source text that cannot be read names it, and so does every other fault of a dump.  And the tree of a
dump is checked while the document around it is being read, so a tree that is rejected shows as a fault
of the document.

## Main results

* `SourceUnit.ofDump_error_cases`: what the errors of dumps say is so.
* `SourceUnit.isChecked_of_load`: what is loaded has been checked.
* `SourceUnit.failsToLoad_iff`: the kind and the file of every fault.
-/

namespace StateGuard

/-- Where a computation in two steps fails. -/
theorem error_cases_of_bind {ε α β : Type} {first : Except ε α} {next : α → Except ε β} {e : ε}
    (h : first >>= next = .error e) :
    first = .error e ∨ ∃ a, first = .ok a ∧ next a = .error e := by
  cases first with
  | error e' => exact .inl (congrArg Except.error (Except.error.inj h))
  | ok a => exact .inr ⟨a, rfl, h⟩

theorem Tree.ofSource_of_not_lexed {source : String} {error : Lexer.Error} (resolve : String → String)
    (file : String) (h : TokenStream.ofSource source = .error error) :
    Tree.ofSource resolve file source = .error (error.toFault file) := by
  simp [Tree.ofSource, h, Except.mapError, Bind.bind, Except.bind]

theorem Tree.ofSource_of_not_parsed {resolve : String → String} {source : String}
    {stream : TokenStream} {error : ParseError} (file : String)
    (hLexed : TokenStream.ofSource source = .ok stream)
    (h : Parser.compilationUnit resolve stream.lexemes = .error error) :
    Tree.ofSource resolve file source = .error (error.toFault file stream) := by
  simp [Tree.ofSource, hLexed, h, Except.mapError, Bind.bind, Except.bind]

/-- An oracle is what its table says. -/
theorem Oracle.ofTable_toTable {n : Nat} (oracle : Oracle n) : ofTable n oracle.toTable = oracle := by
  refine ext (fun i => ?_) (fun i => ?_)
  · rw [typeOf_ofTable, Table.typeOf, toTable_types, lookup_entriesOf]
  · rw [symbolOf_ofTable, Table.symbolOf, toTable_symbols, lookup_entriesOf]

/-! ## Errors of dumps -/

/-- An error that comes up while a document is read: it is not the dump of a unit, or the tree that it
describes is rejected. -/
inductive DumpError.IsOfDocument : DumpError → Prop
  | malformed : IsOfDocument .malformed
  | rejected {error : ArenaError} {file : String} {parts : Array Part} {root : Nat}
      (h : Tree.ofParts file parts root = .error error) : IsOfDocument (.rejected error file)

/-- An error that comes up when the document has been read: the table has an entry past the tree. -/
inductive DumpError.IsOfTable : DumpError → Prop
  | outOfRange {tree : Tree} {table : Table} {node : Nat}
      (accepted : ∃ file parts root, Tree.ofParts file parts root = .ok tree)
      (h : table.outOfRange? tree.size = some node) : IsOfTable (.outOfRange node tree.size tree.file)

namespace SourceUnit

theorem isOfDocument_of_tree {json : Json} {error : DumpError}
    (h : Tree.ofJson json = .error error) : error.IsOfDocument := by
  rw [Tree.ofJson_eq] at h
  split at h
  · obtain rfl := Except.error.inj h
    exact .malformed
  · next file parts root hDescribed =>
      cases hParts : Tree.ofParts file parts.toArray root with
      | ok tree => simp [hParts, Except.mapError] at h
      | error e =>
          obtain rfl : DumpError.rejected e file = error := by
            simpa [hParts, Except.mapError] using h
          exact .rejected hParts

theorem isOfDocument_of_readMember {parts : Partial} {key : String} {value? : Option Json}
    {error : DumpError} (h : readMember parts key value? = .error error) : error.IsOfDocument := by
  unfold readMember at h
  split at h
  · split at h
    · next value hNone =>
        cases hTree : Tree.ofJson value with
        | ok tree => simp [hTree, Except.map] at h
        | error e =>
            obtain rfl : e = error := by simpa [hTree, Except.map] using h
            exact isOfDocument_of_tree hTree
    · obtain rfl := Except.error.inj h
      exact .malformed
  · split at h
    · split at h
      · cases h
      · obtain rfl := Except.error.inj h
        exact .malformed
    · cases h

theorem isOfDocument_of_readMembers {members : List (List Char × Json.Raw)} {error : DumpError}
    (h : readMembers members = .error error) : error.IsOfDocument := by
  unfold readMembers at h
  generalize ({} : Partial) = parts at h
  induction members generalizing parts with
  | nil => simp [pure, Except.pure] at h
  | cons member members ih =>
      rw [List.foldlM_cons] at h
      rcases error_cases_of_bind h with hHere | ⟨next, -, hRest⟩
      · cases hKey : Json.Raw.key? member.1 with
        | none =>
            obtain rfl : DumpError.malformed = error := by simpa [hKey] using hHere
            exact .malformed
        | some key =>
            simp only [hKey] at hHere
            exact isOfDocument_of_readMember hHere
      · exact ih next hRest

theorem isOfDocument_of_readRaw {raw : Json.Raw} {error : DumpError}
    (h : readRaw raw = .error error) : error.IsOfDocument := by
  cases raw with
  | obj members => exact isOfDocument_of_readMembers h
  | arr items =>
      rcases error_cases_of_bind h with hMembers | ⟨parts, -, hLength⟩
      · exact isOfDocument_of_readMembers hMembers
      · split at hLength
        · cases hLength
        · obtain rfl := Except.error.inj hLength
          exact .malformed
  | _ =>
      obtain rfl := Except.error.inj h
      exact .malformed

/-- **What the errors of dumps say is so.** -/
theorem ofDump_error_cases {text : String} {error : DumpError} (h : ofDump text = .error error) :
    error.IsOfDocument ∨ error.IsOfTable := by
  unfold ofDump at h
  split at h
  · rcases error_cases_of_bind h with hRead | ⟨parts, hRead, hParts⟩
    · exact .inl (isOfDocument_of_readRaw hRead)
    · unfold ofParts at hParts
      split at hParts
      · obtain rfl := Except.error.inj hParts
        exact .inl .malformed
      · next tree hTree =>
          dsimp only at hParts
          split at hParts
          · next node hNode =>
              obtain rfl := Except.error.inj hParts
              exact .inr (.outOfRange (isAccepted_of_readRaw hRead tree hTree) hNode)
          · cases hParts
  · rcases error_cases_of_bind h with hRead | ⟨parts, -, hNone⟩
    · exact .inl (isOfDocument_of_readRaw hRead)
    · obtain rfl := Except.error.inj hNone
      exact .inl .malformed

/-! ## Files -/

/-- The seven ways in which the loading of a file fails, with the kind of the fault and the file that it
names. -/
inductive FailsToLoad (read : FileReader) (config : Config) (path : String) :
    FaultKind → Option String → Prop
  /-- A source text cannot be read. -/
  | unreadableText {failure : ReadFailure} (name : isDump path = false)
      (contents : read path = .error failure) : FailsToLoad read config path .io (some path)
  /-- A source text is not made of tokens. -/
  | notLexed {source : String} {error : Lexer.Error} (name : isDump path = false)
      (contents : read path = .ok source) (h : TokenStream.ofSource source = .error error) :
      FailsToLoad read config path .parse (some path)
  /-- The tokens of a source text are not those of a program. -/
  | notParsed {source : String} {stream : TokenStream} {error : ParseError}
      (name : isDump path = false) (contents : read path = .ok source)
      (lexed : TokenStream.ofSource source = .ok stream)
      (h : Parser.compilationUnit (Imports.ofConfig config).resolve stream.lexemes = .error error) :
      FailsToLoad read config path .parse (some path)
  /-- A dump cannot be read.  The fault names no file. -/
  | unreadableDump {failure : ReadFailure} (name : isDump path = true)
      (contents : read path = .error failure) : FailsToLoad read config path .io none
  /-- A text is not the dump of a unit. -/
  | malformed {text : String} (name : isDump path = true) (contents : read path = .ok text)
      (h : ofDump text = .error .malformed) : FailsToLoad read config path .parse (some path)
  /-- The tree of a dump is rejected.  The fault is about the document. -/
  | rejected {text file : String} {error : ArenaError} {parts : Array Part} {root : Nat}
      (name : isDump path = true) (contents : read path = .ok text)
      (h : ofDump text = .error (.rejected error file))
      (tree : Tree.ofParts file parts root = .error error) :
      FailsToLoad read config path .parse (some path)
  /-- The table of a dump has an entry past the tree, which names the file of the unit. -/
  | outOfRange {text : String} {tree : Tree} {table : Table} {node : Nat}
      (name : isDump path = true) (contents : read path = .ok text)
      (h : ofDump text = .error (.outOfRange node tree.size tree.file))
      (accepted : ∃ file parts root, Tree.ofParts file parts root = .ok tree)
      (entry : table.outOfRange? tree.size = some node) :
      FailsToLoad read config path .tree (some tree.file)

/-- The tree of a unit has been accepted, and every entry of its table belongs to a node. -/
structure IsChecked (unit : SourceUnit) : Prop where
  tree : ∃ file parts root, Tree.ofParts file parts root = .ok unit.tree
  table : ∃ table : Table, table.outOfRange? unit.tree.size = none ∧
    unit.oracle = .ofTable unit.tree.size table

variable {read : FileReader} {config : Config} {path : String}

theorem load_of_dump {text : String} (name : isDump path = true) (contents : read path = .ok text) :
    load read config path = ofDumpFile path text := by
  rw [load, if_pos name, contents]

theorem load_of_text {source : String} (name : isDump path = false)
    (contents : read path = .ok source) : load read config path = ofSource config path source := by
  rw [load, name, if_neg Bool.false_ne_true, contents]

theorem load_of_tree_error {source : String} {fault : Fault} (name : isDump path = false)
    (contents : read path = .ok source)
    (h : Tree.ofSource (Imports.ofConfig config).resolve path source = .error fault) :
    load read config path = .error fault := by
  rw [load_of_text name contents, ofSource, h]
  rfl

/-- A dump that is refused gives a fault that names a file. -/
theorem ofDumpFile_of_error {text : String} {error : DumpError} (h : ofDump text = .error error)
    (path : String) :
    ∃ fault, ofDumpFile path text = .error fault ∧ fault.kind = error.toFault.kind ∧
      fault.file = some (error.toFault.file.getD path) := by
  refine ⟨if error.toFault.file.isSome then error.toFault else error.toFault.inFile path,
    by rw [ofDumpFile, h]; rfl, ?_, ?_⟩
  · cases error <;> rfl
  · cases error <;> rfl

/-- A dump fails to load in one of four ways. -/
theorem failsToLoad_of_dump (hDump : isDump path = true) {fault : Fault}
    (h : load read config path = .error fault) :
    FailsToLoad read config path fault.kind fault.file := by
  rw [load, if_pos hDump] at h
  split at h
  · next failure hRead =>
      obtain rfl := Except.error.inj h
      exact .unreadableDump hDump hRead
  · next text hRead =>
      cases hText : ofDump text with
      | ok unit => simp [ofDumpFile, hText, Except.mapError] at h
      | error error =>
          obtain ⟨fault', hFault, hKind, hFile⟩ := ofDumpFile_of_error hText path
          obtain rfl : fault' = fault := Except.error.inj (hFault.symm.trans h)
          rw [hKind, hFile]
          rcases ofDump_error_cases hText with hDocument | hTable
          · cases hDocument with
            | malformed => exact .malformed hDump hRead hText
            | rejected hTree => exact .rejected hDump hRead hText hTree
          · cases hTable with
            | outOfRange hAccepted hEntry => exact .outOfRange hDump hRead hText hAccepted hEntry

/-- A source text fails to load in one of three ways. -/
theorem failsToLoad_of_text (hDump : isDump path = false) {fault : Fault}
    (h : load read config path = .error fault) :
    FailsToLoad read config path fault.kind fault.file := by
  rw [load, hDump, if_neg Bool.false_ne_true] at h
  split at h
  · next failure hRead =>
      obtain rfl := Except.error.inj h
      exact .unreadableText hDump hRead
  · next source hRead =>
      rcases error_cases_of_bind h with hTree | ⟨tree, -, hDone⟩
      · rcases Tree.ofSource_cases (Imports.ofConfig config).resolve path source with
          ⟨error, hLexed, hFault⟩ | ⟨stream, error, hLexed, hParsed, hFault⟩ | ⟨_, _, _, _, _, _, hOk⟩
        · obtain rfl := Except.error.inj (hFault.symm.trans hTree)
          exact .notLexed hDump hRead hLexed
        · obtain rfl := Except.error.inj (hFault.symm.trans hTree)
          exact .notParsed hDump hRead hLexed hParsed
        · rw [hOk] at hTree
          cases hTree
      · cases hDone

/-- **The kind and the file of every fault.** -/
theorem failsToLoad_iff {kind : FaultKind} {file : Option String} :
    FailsToLoad read config path kind file ↔
      ∃ fault, load read config path = .error fault ∧ fault.kind = kind ∧ fault.file = file := by
  constructor
  · rintro (⟨hDump, hRead⟩ | ⟨hDump, hRead, hLexed⟩ | ⟨hDump, hRead, hLexed, hParsed⟩ |
      ⟨hDump, hRead⟩ | ⟨hDump, hRead, hText⟩ | ⟨hDump, hRead, hText, -⟩ | ⟨hDump, hRead, hText, -, -⟩)
    · exact ⟨_, by rw [load, hDump, hRead]; rfl, rfl, rfl⟩
    · exact ⟨_, load_of_tree_error hDump hRead (Tree.ofSource_of_not_lexed _ _ hLexed), rfl, rfl⟩
    · exact ⟨_, load_of_tree_error hDump hRead (Tree.ofSource_of_not_parsed _ hLexed hParsed), rfl, rfl⟩
    · exact ⟨_, by rw [load, hDump, hRead]; rfl, rfl, rfl⟩
    · exact load_of_dump hDump hRead ▸ ofDumpFile_of_error hText path
    · exact load_of_dump hDump hRead ▸ ofDumpFile_of_error hText path
    · exact load_of_dump hDump hRead ▸ ofDumpFile_of_error hText path
  · rintro ⟨fault, hFault, rfl, rfl⟩
    cases hDump : isDump path with
    | true => exact failsToLoad_of_dump hDump hFault
    | false => exact failsToLoad_of_text hDump hFault

/-- **What is loaded has been checked.** -/
theorem isChecked_of_load {unit : SourceUnit} (h : load read config path = .ok unit) :
    unit.IsChecked := by
  cases hDump : isDump path with
  | true =>
      cases hRead : read path with
      | error failure => rw [load, if_pos hDump, hRead] at h; cases h
      | ok text =>
          rw [load_of_dump hDump hRead] at h
          cases hText : ofDump text with
          | error error => rw [ofDumpFile, hText] at h; cases h
          | ok found =>
              obtain rfl : found = unit := by simpa [ofDumpFile, hText, Except.mapError] using h
              obtain ⟨hTree, hTable⟩ := exists_of_ofDump hText
              exact ⟨hTree, hTable⟩
  | false =>
      cases hRead : read path with
      | error failure => rw [load, hDump, if_neg Bool.false_ne_true, hRead] at h; cases h
      | ok source =>
          rw [load_of_text hDump hRead] at h
          obtain ⟨tree, hTree, hBound⟩ := exists_of_bind_eq_ok h
          obtain rfl := Except.ok.inj hBound
          obtain ⟨stream, term, -, -, hLaid⟩ := Tree.exists_unit_of_ofSource hTree
          exact ⟨⟨_, _, _, hLaid⟩, _, Oracle.outOfRange?_toTable _, (Oracle.ofTable_toTable _).symm⟩

/-- **The loading of a file ends with a checked unit or with a classified fault.**  The tree of a unit
has been accepted and its table has entries for nodes of the tree only, whether it comes from a source
text or from a dump.  A fault has the kind and the file of the way that led to it, and each way leads
to a fault.  So a fault is of kind io exactly if the file cannot be read, and of kind tree exactly if
the table of a dump has an entry past the tree; all others are of kind parse.  It names a file unless
it is about a dump that cannot be read. -/
theorem load_ends_checked_or_classified (read : FileReader) (config : Config) (path : String) :
    (∀ unit, load read config path = .ok unit → unit.IsChecked) ∧
    (∀ kind file, FailsToLoad read config path kind file ↔
      ∃ fault, load read config path = .error fault ∧ fault.kind = kind ∧ fault.file = file) ∧
    ∀ fault, load read config path = .error fault →
      (fault.kind = .io ↔ ∃ failure, read path = .error failure) ∧
      (fault.kind = .tree ↔ ∃ text node size file, isDump path = true ∧ read path = .ok text ∧
        ofDump text = .error (.outOfRange node size file)) ∧
      (fault.kind = .io ∨ fault.kind = .tree ∨ fault.kind = .parse) ∧
      (fault.file = none ↔ isDump path = true ∧ ∃ failure, read path = .error failure) := by
  refine ⟨fun _ => isChecked_of_load, fun _ _ => failsToLoad_iff, fun fault hFault => ?_⟩
  have hFails := failsToLoad_iff.2 ⟨fault, hFault, rfl, rfl⟩
  generalize fault.kind = kind, fault.file = file at hFails
  cases hFails with
  | unreadableText hDump hRead => simp [hDump, hRead]
  | notLexed hDump hRead hLexed => simp [hDump, hRead]
  | notParsed hDump hRead hLexed hParsed => simp [hDump, hRead]
  | unreadableDump hDump hRead => simp [hDump, hRead]
  | malformed hDump hRead hText => simp [hDump, hRead, hText]
  | rejected hDump hRead hText hTree => simp [hDump, hRead, hText]
  | outOfRange hDump hRead hText hAccepted hEntry => simp [hDump, hRead, hText]

/-- The names of the two sorts of files. -/
theorem isDump_of_name : isDump "a.json" = true ∧ isDump "a.cs" = false := by
  have hJson : "a.json".splitOn "/" = ["a.json"] := by
    rw [String.splitOn, if_neg (by decide)]
    iterate 6 rw [String.splitOnAux, if_neg (by decide +kernel), if_neg (by decide +kernel)]
    rw [String.splitOnAux, if_pos (by decide +kernel)]
    decide +kernel
  have hText : "a.cs".splitOn "/" = ["a.cs"] := by
    rw [String.splitOn, if_neg (by decide)]
    iterate 4 rw [String.splitOnAux, if_neg (by decide +kernel), if_neg (by decide +kernel)]
    rw [String.splitOnAux, if_pos (by decide +kernel)]
    decide +kernel
  constructor
  · rw [isDump, extension?, pathSegments, hJson]
    decide +kernel
  · rw [isDump, extension?, pathSegments, hText]
    decide +kernel

/-- A text without members is loaded and checked.  A source text that is missing is named, and a dump
that is missing is not. -/
theorem missing_files_are_classified :
    (∃ unit, load (fun _ => .ok "") {} "a.cs" = .ok unit ∧ unit.IsChecked) ∧
      (∃ fault, load (fun _ => .error .notFound) {} "a.cs" = .error fault ∧
        fault.kind = .io ∧ fault.file = some "a.cs") ∧
      ∃ fault, load (fun _ => .error .notFound) {} "a.json" = .error fault ∧
        fault.kind = .io ∧ fault.file = none := by
  obtain ⟨hDump, hText⟩ := isDump_of_name
  obtain ⟨hChecked, -⟩ := load_ends_checked_or_classified (fun _ => .ok "") {} "a.cs"
  obtain ⟨-, hSource, -⟩ := load_ends_checked_or_classified (fun _ => .error .notFound) {} "a.cs"
  obtain ⟨-, hOther, -⟩ := load_ends_checked_or_classified (fun _ => .error .notFound) {} "a.json"
  refine ⟨?_, (hSource _ _).1 (.unreadableText hText rfl), (hOther _ _).1 (.unreadableDump hDump rfl)⟩
  have hLoaded : (ofSource {} "a.cs" "").toOption.isSome = true := by decide +kernel
  have hLoad : load (fun _ => .ok "") {} "a.cs" = ofSource {} "a.cs" "" := load_of_text hText rfl
  rw [← hLoad] at hLoaded
  cases hUnit : load (fun _ => .ok "") {} "a.cs" with
  | ok unit => exact ⟨unit, rfl, hChecked unit hUnit⟩
  | error fault => simp [hUnit, Except.toOption] at hLoaded

/-- A dump whose only node refers to a node that does not exist. -/
def danglingDump : String :=
  "\x7b\"tree\":\x7b\"file_path\":\"x.cs\",\"root\":0,\"nodes\":[\x7b\"kind\":\"parenthesized\"," ++
    "\"inner\":4\x7d]\x7d\x7d"

theorem ofDump_danglingDump : ofDump danglingDump = .error (.rejected (.missingChild 0 4) "x.cs") := by
  have hError : (match ofDump danglingDump with
      | .error error => decide (error = .rejected (.missingChild 0 4) "x.cs")
      | .ok _ => false) = true := by
    decide +kernel
  cases hText : ofDump danglingDump with
  | ok unit => simp [hText] at hError
  | error error =>
      rw [hText] at hError
      rw [of_decide_eq_true hError]

/-- Not every fault names a file, and a rejected tree does not show as a fault of kind tree. -/
theorem misleading_faults_of_dumps :
    (¬ ∀ read config path fault, load read config path = .error fault → fault.file ≠ none) ∧
      ¬ ∀ read config path fault text error file, load read config path = .error fault →
        isDump path = true → read path = .ok text → ofDump text = .error (.rejected error file) →
        fault.kind = .tree := by
  obtain ⟨hDump, -⟩ := isDump_of_name
  constructor
  · intro hAll
    have hFails : FailsToLoad (fun _ => .error .notFound) {} "a.json" .io none :=
      .unreadableDump hDump rfl
    obtain ⟨fault, hFault, -, hFile⟩ := failsToLoad_iff.1 hFails
    exact hAll _ _ _ _ hFault hFile
  · intro hAll
    have hLoad : load (fun _ => .ok danglingDump) {} "a.json" = ofDumpFile "a.json" danglingDump :=
      load_of_dump hDump rfl
    obtain ⟨fault, hFault, hKind, -⟩ := ofDumpFile_of_error ofDump_danglingDump "a.json"
    have hTree := hAll _ _ _ fault danglingDump _ _ (hLoad.trans hFault) hDump rfl
      ofDump_danglingDump
    rw [hKind] at hTree
    cases hTree

end SourceUnit

end StateGuard
