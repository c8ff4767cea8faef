import HMailServer.Util.WideString
import HMailServer.Util.AnsiString

/- Building SQL (`Common/SQL/SQLStatement.cpp`, `SQLCommand.cpp` and
   `SQLParameter.cpp`): the command of a statement, with its numbered parameter
   names, and the substitution of the values for the backends that bind no
   parameters. -/
namespace HMailServer.Sql

inductive DatabaseType where
  | unknown
  | mySqlServer
  | msSqlServer
  | pgServer
  | msSqlCompactEdition
  deriving DecidableEq, Repr

/-- The configured database, and what the PostgreSQL server said of its
    strings. -/
structure Database where
  type : DatabaseType
  standardConformingStrings : Bool
  deriving DecidableEq, Repr

/-! ## Strings -/

/-- A narrow string made wide: each byte is the character of its value. -/
def widen (s : AnsiString) : WString := s.map UInt8.toNat

/-- A wide string made narrow: a character that no byte can carry becomes a
    question mark. -/
def narrow (s : WString) : AnsiString := s.map fun c => if c ≤ 0xFF then UInt8.ofNat c else 63

/-- `StringParser::IntToString`, and `%d` of `Format`. -/
def intToString (n : Int) : WString :=
  if n < 0 then 45 :: widen (AnsiString.formatNat n.natAbs) else widen (AnsiString.formatNat n.natAbs)

/-- `Replace` of a one-character string. -/
def replace (old : WChar) (new : WString) (s : WString) : WString := s.flatMap fun c => if c = old then new else [c]

/-- Whether `Escape` takes a backslash for an escape character. -/
def backslashEscapes (db : Database) : Bool :=
  db.type = .mySqlServer || (db.type = .pgServer && !db.standardConformingStrings)

/-- `SQLStatement::Escape`. -/
def escape (db : Database) (input : WString) : WString :=
  let doubled := replace 39 (wide "''") input
  if backslashEscapes db then replace 92 (wide "\\\\") doubled else doubled

/-! ## Commands -/

inductive ParameterValue where
  | int32 (value : Int)
  | int64 (value : Int)
  | string (value : WString)
  | unsignedInt32 (value : Nat)
  deriving DecidableEq, Repr

structure SQLParameter where
  name : WString
  value : ParameterValue
  deriving DecidableEq, Repr

structure SQLCommand where
  queryString : WString := []
  parameters : List SQLParameter := []
  deriving DecidableEq, Repr

/-- `AddParameter`, whose name argument is narrow. -/
def SQLCommand.addParameter (command : SQLCommand) (name : AnsiString) (value : ParameterValue) : SQLCommand :=
  { command with parameters := command.parameters ++ [{ name := widen name, value }] }

/-! ## `GenerateFromCommand` -/

def isParameterNameCharacter (c : WChar) : Bool :=
  (97 ≤ c && c ≤ 122) || (65 ≤ c && c ≤ 90) || (48 ≤ c && c ≤ 57) || c == 95

/-- The text a value is substituted by. -/
def literal (db : Database) : ParameterValue → WString
  | .int32 value => intToString value
  | .int64 value => intToString value
  | .unsignedInt32 value => intToString value
  | .string value => wide "'" ++ escape db value ++ wide "'"

/-- The table of `GenerateFromCommand`, with the errors it reports on the way. -/
structure Substitutions where
  table : List (WString × WString) := []
  longestName : Nat := 0
  reported : List (Nat × WString) := []

def Substitutions.add (db : Database) (s : Substitutions) (parameter : SQLParameter) : Substitutions :=
  let name := parameter.name
  if name.length < 2 ∨ name.head? ≠ some 64 then
    { s with reported := s.reported ++ [(5840, wide "The parameter name " ++ name ++
      wide " is not on the form @name and can not be substituted.")] }
  else
    let text := literal db parameter.value
    match s.table.lookup name with
    | none => { s with table := s.table ++ [(name, text)], longestName := max s.longestName name.length }
    | some existing =>
      if existing = text then s
      else { s with reported := s.reported ++ [(5842, wide "The parameter name " ++ name ++ wide (" is used twice in one " ++
        "command with different values. The first value is substituted and the second is lost."))] }

def substitutions (db : Database) (command : SQLCommand) : Substitutions :=
  command.parameters.foldl (Substitutions.add db) {}

/-- The longest name at the head of `text` of at most `tokenLength` characters:
    its text, and its length. -/
def findToken (table : List (WString × WString)) (text : WString) : Nat → Option (WString × Nat)
  | tokenLength + 2 =>
    match table.lookup (text.take (tokenLength + 2)) with
    | some found => some (found, tokenLength + 2)
    | none => findToken table text (tokenLength + 1)
  | _ => none

/-- The run of name characters behind an `@`, held to the longest name. -/
def tokenRun (longestName : Nat) (rest : WString) : Nat :=
  ((rest.take (longestName - 1)).takeWhile isParameterNameCharacter).length

/-- The scan of the query. The characters of a token that was substituted are
    still to be skipped. -/
def substitute (table : List (WString × WString)) (longestName : Nat) : Nat → WString → WString
  | _, [] => []
  | skip + 1, _ :: rest => substitute table longestName skip rest
  | 0, c :: rest =>
    if c ≠ 64 then c :: substitute table longestName 0 rest
    else
      match findToken table (c :: rest) (tokenRun longestName rest + 1) with
      | some (text, tokenLength) => text ++ substitute table longestName (tokenLength - 1) rest
      | none => c :: substitute table longestName 0 rest

def generateFromCommand (db : Database) (command : SQLCommand) : WString :=
  let s := substitutions db command
  if s.table.isEmpty then command.queryString else substitute s.table s.longestName 0 command.queryString

/-! ## `GetCommand` -/

inductive ColType where
  | unknown
  | value
  | string
  | raw
  deriving DecidableEq, Repr

inductive StatementType where
  | undefined
  | insert
  | update
  | delete
  | select
  deriving DecidableEq, Repr

structure Column where
  name : WString
  string : WString := []
  int : Int := 0
  type : ColType
  deriving DecidableEq, Repr

structure Statement where
  type : StatementType
  identityColumn : WString := []
  whereText : WString := []
  table : WString
  additionalSql : WString := []
  topRows : Int := -1
  columns : List Column := []
  whereClauseColumns : List Column := []
  deriving DecidableEq, Repr

/-- What `GetCommand` has built: the text, the command and the last ordinal. -/
structure Builder where
  sql : WString := []
  command : SQLCommand := {}
  parameterValue : Nat := 1

def Builder.append (b : Builder) (text : WString) : Builder := { b with sql := b.sql ++ text }

/-- The underscore keeps the name apart from a longer column name with a
    shorter ordinal. -/
def parameterName (column : Column) (parameterValue : Nat) : WString :=
  wide "@" ++ column.name ++ wide "_" ++ intToString parameterValue

/-- The value of a column in an `INSERT` or an `UPDATE`. -/
def Builder.appendValue (db : Database) (b : Builder) (column : Column) : Builder :=
  let name := parameterName column b.parameterValue
  match column.type with
  | .value => { b.append name with command := b.command.addParameter (narrow name) (.int64 column.int) }
  | .string => { b.append name with command := b.command.addParameter (narrow name) (.string column.string) }
  | .raw => b.append (escape db column.string)
  | .unknown => b

def Builder.next (b : Builder) : Builder := { b with parameterValue := b.parameterValue + 1 }

/-- A loop over columns that writes a separator between them. -/
def Builder.forColumns (separator : WString) (body : Builder → Column → Builder) (b : Builder) :
    List Column → Builder
  | [] => b
  | column :: rest => rest.foldl (fun b column => body (b.append separator) column) (body b column)

def Builder.insert (db : Database) (statement : Statement) (b : Builder) : Builder :=
  let b := b.append (wide "INSERT INTO " ++ statement.table ++ wide " " ++ wide "(")
  let b := b.forColumns (wide ", ") (fun b column => b.append column.name) statement.columns
  let b := b.append (wide ") VALUES (")
  let b := b.forColumns (wide ", ") (fun b column => b.next.appendValue db column) statement.columns
  let b := b.append (wide ")")
  if db.type = .pgServer ∧ statement.identityColumn ≠ [] then b.append (wide " RETURNING " ++ statement.identityColumn)
  else b

def Builder.update (db : Database) (statement : Statement) (b : Builder) : Builder :=
  let b := b.append (wide "UPDATE " ++ statement.table ++ wide " SET ")
  b.forColumns (wide ", ") (fun b column => (b.next.append (column.name ++ wide "=")).appendValue db column)
    statement.columns

/-- What stands in front of the columns of a `SELECT` on the SQL Server
    databases. -/
def topText (db : Database) (topRows : Int) : WString :=
  if topRows > -1 then
    match db.type with
    | .msSqlServer => wide " TOP " ++ intToString topRows ++ wide " "
    | .msSqlCompactEdition => wide " TOP (" ++ intToString topRows ++ wide ") "
    | _ => []
  else []

def limitText (db : Database) (topRows : Int) : WString :=
  if topRows > -1 then
    match db.type with
    | .pgServer => wide " LIMIT " ++ intToString topRows ++ wide " "
    | .mySqlServer => wide " LIMIT 0, " ++ intToString topRows ++ wide " "
    | _ => []
  else []

def Builder.select (db : Database) (statement : Statement) (b : Builder) : Builder :=
  let b := b.append (wide "SELECT " ++ topText db statement.topRows)
  let b :=
    if statement.columns = [] then b.append (wide " * ")
    else b.forColumns (wide ", ") (fun b column => b.append column.name) statement.columns
  let b := b.append (wide " FROM " ++ statement.table)
  if statement.additionalSql ≠ [] then b.append (wide " " ++ statement.additionalSql) else b

/-- One column of the `WHERE` clause. -/
def Builder.appendCondition (db : Database) (b : Builder) (column : Column) : Builder :=
  let b := b.next
  let name := parameterName column b.parameterValue
  match column.type with
  | .string =>
    let text := match db.type with
      | .pgServer => wide "lower(" ++ column.name ++ wide ") = lower(" ++ name ++ wide ")"
      | .unknown => []
      | _ => column.name ++ wide " = " ++ name
    { b.append text with command := b.command.addParameter (narrow name) (.string column.string) }
  | .value =>
    { b.append (column.name ++ wide " = " ++ name) with command := b.command.addParameter (narrow name) (.int64 column.int) }
  | .raw => b.append (column.name ++ wide " = " ++ escape db column.string)
  | .unknown => b

def Builder.whereClause (db : Database) (statement : Statement) (b : Builder) : Builder :=
  if statement.whereClauseColumns ≠ [] then
    (b.append (wide " WHERE ")).forColumns (wide " AND ") (Builder.appendCondition db) statement.whereClauseColumns
  else if statement.whereText ≠ [] then b.append (wide " WHERE " ++ statement.whereText)
  else b

/-- `SQLStatement::GetCommand`. For an unknown database type it reports an
    error and returns an empty command. -/
def getCommand (db : Database) (statement : Statement) : SQLCommand :=
  if db.type = .unknown then {}
  else
    let b := match statement.type with
      | .insert => Builder.insert db statement {}
      | .update => Builder.update db statement {}
      | .delete => Builder.append {} (wide "DELETE FROM " ++ statement.table)
      | .select => Builder.select db statement {}
      | .undefined => {}
    let b := b.whereClause db statement
    let b := if statement.type = .select then b.append (limitText db statement.topRows) else b
    { b.command with queryString := b.sql }

end HMailServer.Sql
