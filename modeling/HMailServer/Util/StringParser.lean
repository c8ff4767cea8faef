import HMailServer.Util.AnsiString

/- `StringParser::SplitString` of a narrow string (`Common/Util/Parsing`). Where
   the separator is found each piece is copied through a wide `String`, and what
   comes back ends at the first NUL; where it is not, the string is answered as
   it is. -/
namespace HMailServer.StringParser
open AnsiString

/-- The pieces between the separators, with `skip` characters of one to pass. -/
def splitPieces (separator : AnsiString) : Nat → AnsiString → List AnsiString
  | _, [] => [[]]
  | skip + 1, _ :: s => splitPieces separator skip s
  | 0, c :: s =>
    if separator.isPrefixOf (c :: s) then [] :: splitPieces separator (separator.length - 1) s
    else (splitPieces separator 0 s).modifyHead (c :: ·)

/-- The last piece is left out if nothing is left of it. -/
def splitString (s separator : AnsiString) : List AnsiString :=
  match splitPieces separator 0 s with
  | [_] => if s = [] then [] else [s]
  | pieces =>
    let converted := pieces.map cstr
    if converted.getLast? = some [] then converted.dropLast else converted

theorem splitPieces_ne_nil (separator : AnsiString) (skip : Nat) (s : AnsiString) :
    splitPieces separator skip s ≠ [] := by
  fun_induction splitPieces separator skip s with
  | case1 => exact List.cons_ne_nil _ _
  | case2 _ _ _ ih => exact ih
  | case3 => exact List.cons_ne_nil _ _
  | case4 c s _ ih =>
    obtain ⟨p, ps, hps⟩ := List.exists_cons_of_ne_nil ih
    rw [hps]
    exact List.cons_ne_nil _ _

theorem splitPieces_singleton (c : UInt8) (s : AnsiString) : splitPieces [c] 0 s = s.splitOn c := by
  induction s with
  | nil => rfl
  | cons d s ih =>
    rw [splitPieces, List.splitOn_cons_eq_if_modifyHead, List.length_singleton, ih]
    by_cases h : d = c
    · rw [if_pos (by simp [h]), if_pos (by simp [h])]
    · rw [if_neg (by simp [Ne.symm h]), if_neg (by simp [h])]

example : splitString (ansi "a;;b;") (ansi ";") = [ansi "a", [], ansi "b"] := by decide

end HMailServer.StringParser
