import Frontend.Cli.Run
import Frontend.Proofs.Text.Quoted
import Frontend.Proofs.Text.SingleLines
import Frontend.Proofs.Trace.Order

/-!
# Reading the token table

A row of the token table has four cells with blanks between them.  A cell may be wider than its
column, so widths do not tell where it ends.  But the name of a kind and the numbers have no blanks
in them, and the literal is quoted, so each row can be read from the left, cell by cell.
-/

namespace Frontend

namespace Cli

/-! ## Cells -/

/-- The next cell of a row and what stands behind it.  Blanks before the cell are passed over, and
it ends before the next blank. -/
def nextCell (row : List Char) : List Char × List Char :=
  let rest := row.dropWhile (· = ' ')
  (rest.takeWhile (· ≠ ' '), rest.dropWhile (· ≠ ' '))

/-- A number of blanks. -/
def blanks (count : Nat) : List Char := List.replicate count ' '

theorem blanks_before (count : Nat) (rest : List Char) :
    " ".toList ++ (blanks count ++ rest) = blanks (count + 1) ++ rest := rfl

theorem blanks_behind (count : Nat) (rest : List Char) :
    blanks count ++ (" ".toList ++ rest) = blanks (count + 1) ++ rest := by
  rw [blanks, blanks, List.replicate_succ', List.append_assoc]
  rfl

theorem blanks_append (left right : Nat) (rest : List Char) :
    blanks left ++ (blanks right ++ rest) = blanks (left + right) ++ rest := by
  rw [blanks, blanks, blanks, ← List.replicate_append_replicate, List.append_assoc]

theorem quote_not_mem_blanks (count : Nat) : '"' ∉ blanks count := by
  simp [blanks]

theorem eq_blank_of_head? (count : Nat) (rest : List Char) :
    ∀ c ∈ (blanks (count + 1) ++ rest).head?, c = ' ' :=
  fun _ hc => (Option.some.inj hc).symm

theorem dropWhile_blanks (count : Nat) {rest : List Char} (hrest : ∀ c ∈ rest.head?, c ≠ ' ') :
    (blanks count ++ rest).dropWhile (· = ' ') = rest := by
  rw [List.dropWhile_append_of_pos fun c hmember =>
    decide_eq_true (List.eq_of_mem_replicate hmember)]
  cases rest with
  | nil => rfl
  | cons c rest => exact List.dropWhile_cons_of_neg (by simpa using hrest c rfl)

/-- A cell is found behind any blanks, up to the end of the row or to a blank.  How wide the cell
was made does not matter. -/
theorem nextCell_cell (count : Nat) {cell rest : List Char} (hsome : cell ≠ []) (hcell : ' ' ∉ cell)
    (hrest : ∀ c ∈ rest.head?, c = ' ') :
    nextCell (blanks count ++ (cell ++ rest)) = (cell, rest) := by
  have hstart : ∀ c ∈ (cell ++ rest).head?, c ≠ ' ' := by
    intro c hc hblank
    rw [List.head?_append_of_ne_nil cell hsome, hblank] at hc
    exact hcell (List.mem_of_mem_head? hc)
  have hinside : ∀ c ∈ cell, decide (c ≠ ' ') = true := fun c hmember =>
    decide_eq_true fun hblank => hcell (hblank ▸ hmember)
  have hbehind : rest.takeWhile (· ≠ ' ') = [] ∧ rest.dropWhile (· ≠ ' ') = rest := by
    cases rest with
    | nil => exact ⟨rfl, rfl⟩
    | cons c rest =>
        obtain rfl : c = ' ' := hrest c rfl
        exact ⟨rfl, rfl⟩
  rw [nextCell, dropWhile_blanks count hstart, List.takeWhile_append_of_pos hinside,
    List.dropWhile_append_of_pos hinside, hbehind.1, hbehind.2, List.append_nil]

theorem nextCell_decimal (count n : Nat) {rest : List Char} (hrest : ∀ c ∈ rest.head?, c = ' ') :
    nextCell (blanks count ++ (Numeral.decimal n ++ rest)) = (Numeral.decimal n, rest) :=
  nextCell_cell count (Numeral.decimal_ne_nil n)
    (fun hblank => absurd (Numeral.isDigit_of_mem_decimal n _ hblank) (by decide)) hrest

theorem nextCell_name (kind : Kind) (count : Nat) (rest : List Char) :
    nextCell (kind.name.toList ++ (blanks (count + 1) ++ rest)) =
      (kind.name.toList, blanks (count + 1) ++ rest) := by
  have hsome : kind.name.toList ≠ [] := by cases kind <;> decide
  exact nextCell_cell 0 hsome kind.blank_not_mem_name (eq_blank_of_head? count rest)

/-! ## Rows -/

/-- A row without the line feed that ends it: four cells, of which the first two are filled up on
the right and the last two on the left. -/
def rowLine (kind literal start stop : String) : String :=
  padRight 10 kind ++ " " ++ padRight 20 literal ++ " " ++ padLeft 6 start ++ " " ++ padLeft 6 stop

/-- Between two cells there is at least one blank. -/
theorem rowLine_cells (kind literal start stop : String) :
    ∃ first second third, (rowLine kind literal start stop).toList =
      kind.toList ++ (blanks (first + 1) ++ (literal.toList ++ (blanks (second + 1) ++
        (start.toList ++ (blanks (third + 1) ++ stop.toList))))) := by
  refine ⟨10 - kind.length, 20 - literal.length + (6 - start.length), 6 - stop.length, ?_⟩
  simp only [rowLine, padRight, padLeft, repeated, String.toList_append, String.toList_ofList,
    List.append_assoc]
  rw [← blanks, ← blanks, ← blanks, ← blanks, blanks_behind, blanks_before, blanks_append,
    blanks_before]
  rfl

theorem padRight_isLine (width : Nat) {text : String} (htext : IsLine text) :
    IsLine (padRight width text) :=
  htext.append (by simp [IsLine, repeated])

theorem padLeft_isLine (width : Nat) {text : String} (htext : IsLine text) :
    IsLine (padLeft width text) :=
  .append (by simp [IsLine, repeated]) htext

theorem rowLine_isLine {kind literal start stop : String} (hkind : IsLine kind)
    (hliteral : IsLine literal) (hstart : IsLine start) (hstop : IsLine stop) :
    IsLine (rowLine kind literal start stop) := by
  have hblank : IsLine " " := by decide
  have hfirst := (padRight_isLine 10 hkind).append hblank
  have hsecond := (hfirst.append (padRight_isLine 20 hliteral)).append hblank
  have hthird := (hsecond.append (padLeft_isLine 6 hstart)).append hblank
  exact hthird.append (padLeft_isLine 6 hstop)

/-! ## Tokens -/

/-- The line of a token, which `print_token_table` prints for each. -/
def tokenLine (token : Token) : String :=
  rowLine token.kind.name (Quoted.text token.literal) (Numeral.ofNat token.span.start)
    (Numeral.ofNat token.span.stop)

theorem tokenLine_isLine (token : Token) : IsLine (tokenLine token) :=
  rowLine_isLine (.kindName token.kind) (Quoted.feed_not_mem_text token.literal)
    (.of_isNumeral (Numeral.ofNat_isNumeral _)) (.of_isNumeral (Numeral.ofNat_isNumeral _))

/-- The kind that a name belongs to. -/
def kindOfName? (name : List Char) : Option Kind :=
  Kind.all.find? fun kind => kind.name.toList = name

theorem kindOfName?_name (kind : Kind) : kindOfName? kind.name.toList = some kind := by
  cases kind <;> rfl

/-- The token that a row tells of.  Cells are divided by blanks, but a literal may have blanks in
it, so it is read as quoted text. -/
def tokenOfRow? (row : List Char) : Option Token := do
  let (name, behindName) := nextCell row
  let kind ← kindOfName? name
  let (literal, behindLiteral) ← Quoted.read .outside behindName
  let (start, behindStart) := nextCell behindLiteral
  let (stop, _) := nextCell behindStart
  some ⟨kind, String.ofList literal, ⟨Numeral.ofDecimal start, Numeral.ofDecimal stop⟩⟩

theorem tokenOfRow?_cells (kind : Kind) (literal : String) (start stop first second third : Nat) :
    tokenOfRow? (kind.name.toList ++ (blanks (first + 1) ++ ((Quoted.text literal).toList ++
      (blanks (second + 1) ++ (Numeral.decimal start ++ (blanks (third + 1) ++
        Numeral.decimal stop)))))) = some ⟨kind, literal, ⟨start, stop⟩⟩ := by
  have hstop : nextCell (blanks (third + 1) ++ (Numeral.decimal stop ++ [])) =
      (Numeral.decimal stop, []) := nextCell_decimal (third + 1) stop nofun
  rw [List.append_nil] at hstop
  rw [tokenOfRow?, nextCell_name]
  dsimp only
  rw [kindOfName?_name, Option.bind_eq_bind, Option.bind_some,
    Quoted.read_text (quote_not_mem_blanks (first + 1)), Option.bind_eq_bind, Option.bind_some]
  dsimp only
  rw [nextCell_decimal _ _ (eq_blank_of_head? third _)]
  dsimp only
  rw [hstop, String.ofList_toList, Numeral.ofDecimal_decimal, Numeral.ofDecimal_decimal]

/-- The line of a token tells all of it: its kind, its literal and both ends of its span. -/
theorem tokenOfRow?_tokenLine (token : Token) :
    tokenOfRow? (tokenLine token).toList = some token := by
  obtain ⟨first, second, third, hcells⟩ :=
    rowLine_cells token.kind.name (Quoted.text token.literal) (Numeral.ofNat token.span.start)
      (Numeral.ofNat token.span.stop)
  rw [tokenLine, hcells, Numeral.ofNat, Numeral.ofNat, String.toList_ofList, String.toList_ofList,
    tokenOfRow?_cells]

/-! ## Tables -/

theorem pieces_tokenTable (tokens : List Token) :
    pieces '\n' (tokenTable tokens).toList =
      (rowLine "KIND" "LITERAL" "START" "END").toList ::
        (tokens.map fun token => (tokenLine token).toList) ++ [[]] := by
  have hheading : IsLine (rowLine "KIND" "LITERAL" "START" "END") :=
    rowLine_isLine (by decide) (by decide) (by decide) (by decide)
  have htext : (tokenTable tokens).toList =
      (rowLine "KIND" "LITERAL" "START" "END").toList ++ '\n' ::
        (joined "" (tokens.map fun token => tokenLine token ++ "\n")).toList := by
    have hrow : tokenRow = fun token => tokenLine token ++ "\n" := rfl
    rw [tokenTable, hrow, tableRow, String.toList_append, String.toList_append, List.append_assoc]
    rfl
  rw [htext, pieces_line hheading, pieces_joined_lines fun token _ => tokenLine_isLine token]
  rfl

end Cli

/-- The tokens of a text are listed below a heading with one line for each token, the end token
included, and each token can be read back from its line as it is. -/
theorem token_table_readable (path : String) (filter : Cli.LogFilter) (stamp : String)
    (source : Source) :
    let output := (⟨.tokens path .table, filter⟩ : Cli.Task).runOn stamp source
    output.exit = 0 ∧
      ∃ rows, pieces '\n' output.stdout.toList =
          "KIND       LITERAL               START    END".toList :: rows ++ [[]] ∧
        rows.map Cli.tokenOfRow? = (lex source.text).map some := by
  refine ⟨rfl, (lex source.text).map fun token => (Cli.tokenLine token).toList, ?_, ?_⟩
  · exact Cli.pieces_tokenTable (lex source.text)
  · rw [List.map_map]
    exact List.map_congr_left fun token _ => Cli.tokenOfRow?_tokenLine token

end Frontend
