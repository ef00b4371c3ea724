import PathGlob.Text

namespace PathGlob.Text

def plainNewlines : Text → Text
  | [] => []
  | '\r' :: '\n' :: rest => '\n' :: plainNewlines rest
  | c :: rest => (if c = '\r' then '\n' else c) :: plainNewlines rest

def lines (text : Text) : List Text := splitOn ['\n'] (plainNewlines text)

theorem not_mem_plainNewlines (text : Text) : '\r' ∉ plainNewlines text := by
  fun_induction plainNewlines text with
  | case1 => simp
  | case2 rest ih => simp [ih]
  | case3 c rest _ ih =>
    split
    · simp [ih]
    · rename_i h
      simp [ih, Ne.symm h]

end PathGlob.Text
