import ImageBuild.Glob.Parser
/-!
# Matching row by row

Tried token by token, a pattern with many stars takes exponential time.  Here the tokens from the first
star on are gone through once, from the last to the first, each time for all tails of the path: a row
holds an answer for each tail, the longest first.  `admits_eq` says that the answers are those of
`matchTokens`.
-/

namespace ImageBuild.Glob

/-- The answer of a row for the longest tail. -/
def longest : List Bool → Bool
  | [] => false
  | b :: _ => b

/-- The row of a token that stands for one character, before a row of the tokens after it. -/
def charRow (t : Token) : List Char → List Bool → List Bool
  | c :: cs, _ :: next => (t.admits c && longest next) :: charRow t cs next
  | _, _ => [false]

/-- The row of `*`. -/
def sequenceRow : List Char → List Bool → List Bool
  | c :: cs, b :: next =>
    let rest := sequenceRow cs next
    (b || (c ≠ '/' && longest rest)) :: rest
  | _, next => next

/-- The row that says whether some tail after a slash, or the empty one, is admitted. -/
def stepsRow : List Char → List Bool → List Bool
  | c :: cs, _ :: next =>
    let rest := stepsRow cs next
    ((c = '/' && longest next) || longest rest) :: rest
  | _, next => next

def rowOf (t : Token) (path : List Char) (next : List Bool) : List Bool :=
  match t with
  | .anySequence => sequenceRow path next
  | .anyDepth => List.zipWith or next (stepsRow path next)
  | t => charRow t path next

/-- The row of no tokens: only the empty tail is admitted. -/
def emptyRow : List Char → List Bool
  | [] => [true]
  | _ :: cs => false :: emptyRow cs

/-- The answers for all tails of a path. -/
def matchRow : List Token → List Char → List Bool
  | [], path => emptyRow path
  | t :: ts, path => rowOf t path (matchRow ts path)

/-- The row of a predicate on tails. -/
def answers (p : List Char → Bool) : List Char → List Bool
  | [] => [p []]
  | c :: cs => p (c :: cs) :: answers p cs

theorem longest_answers (p : List Char → Bool) (cs : List Char) :
    longest (answers p cs) = p cs := by
  cases cs <;> rfl

theorem emptyRow_eq (cs : List Char) : emptyRow cs = answers List.isEmpty cs := by
  induction cs with
  | nil => rfl
  | cons c cs ih => simp [emptyRow, answers, ih]

theorem sequenceRow_answers (p : List Char → Bool) (cs : List Char) :
    sequenceRow cs (answers p cs) = answers (afterSequence p) cs := by
  induction cs with
  | nil => rfl
  | cons c cs ih => simp [sequenceRow, answers, ih, longest_answers, afterSequence]

theorem stepsRow_answers (p : List Char → Bool) (cs : List Char) :
    stepsRow cs (answers p cs) = answers (afterSteps p) cs := by
  induction cs with
  | nil => rfl
  | cons c cs ih => simp [stepsRow, answers, ih, longest_answers, afterSteps]

theorem zipWith_or_answers (p q : List Char → Bool) (cs : List Char) :
    List.zipWith or (answers p cs) (answers q cs) = answers (fun cs => p cs || q cs) cs := by
  induction cs with
  | nil => rfl
  | cons c cs ih => simp [answers, ih]

/-- A token that stands for one character takes one off the path. -/
def afterChar (t : Token) (p : List Char → Bool) : List Char → Bool
  | [] => false
  | c :: cs => t.admits c && p cs

theorem charRow_answers (t : Token) (p : List Char → Bool) (cs : List Char) :
    charRow t cs (answers p cs) = answers (afterChar t p) cs := by
  induction cs with
  | nil => rfl
  | cons c cs ih => simp [charRow, answers, ih, longest_answers, afterChar]

theorem answers_congr {p q : List Char → Bool} (h : ∀ cs, p cs = q cs) (cs : List Char) :
    answers p cs = answers q cs := by
  rw [funext h]

/-- Every token but `*` and `**` stands for one character. -/
theorem matchTokens_char {t : Token} (h₁ : t ≠ .anySequence) (h₂ : t ≠ .anyDepth)
    (ts : List Token) (path : List Char) :
    matchTokens (t :: ts) path = afterChar t (matchTokens ts) path := by
  cases path with
  | nil => cases t <;> simp_all [matchTokens, afterChar]
  | cons c cs => simp [matchTokens, afterChar]

theorem rowOf_char {t : Token} (h₁ : t ≠ .anySequence) (h₂ : t ≠ .anyDepth)
    (path : List Char) (next : List Bool) : rowOf t path next = charRow t path next := by
  rw [rowOf]
  · exact h₁
  · exact h₂

theorem rowOf_answers (t : Token) (ts : List Token) (path : List Char) :
    rowOf t path (answers (matchTokens ts) path) = answers (matchTokens (t :: ts)) path := by
  by_cases h₁ : t = .anySequence
  · subst h₁
    rw [rowOf, sequenceRow_answers]
    exact answers_congr (fun cs => by rw [matchTokens]) path
  by_cases h₂ : t = .anyDepth
  · subst h₂
    rw [rowOf, stepsRow_answers, zipWith_or_answers]
    exact answers_congr (fun cs => by rw [matchTokens]) path
  · rw [rowOf_char h₁ h₂, charRow_answers]
    exact answers_congr (fun cs => (matchTokens_char h₁ h₂ ts cs).symm) path

theorem matchRow_eq (ts : List Token) (path : List Char) :
    matchRow ts path = answers (matchTokens ts) path := by
  induction ts with
  | nil =>
    rw [matchRow, emptyRow_eq]
    exact answers_congr (fun cs => by rw [matchTokens]) path
  | cons t ts ih => rw [matchRow, ih, rowOf_answers]

/-- Whether the tokens match all of a path; rows are made from the first star on. -/
def matchPath : List Token → List Char → Bool
  | [], path => path.isEmpty
  | .anySequence :: ts, path => longest (matchRow (.anySequence :: ts) path)
  | .anyDepth :: ts, path => longest (matchRow (.anyDepth :: ts) path)
  | _ :: _, [] => false
  | t :: ts, c :: path => t.admits c && matchPath ts path

theorem matchPath_eq (ts : List Token) (path : List Char) :
    matchPath ts path = matchTokens ts path := by
  fun_induction matchPath ts path with
  | case1 => rw [matchTokens]
  | case2 => rw [matchRow_eq, longest_answers]
  | case3 => rw [matchRow_eq, longest_answers]
  | case4 => simp_all [matchTokens]
  | case5 => simp_all [matchTokens]

/-- Whether a pattern matches all of a path. -/
def Pattern.admits (p : Pattern) (path : List Char) : Bool :=
  matchPath p.tokens path

theorem Pattern.admits_eq (p : Pattern) (path : List Char) :
    p.admits path = matchTokens p.tokens path :=
  matchPath_eq p.tokens path

end ImageBuild.Glob
