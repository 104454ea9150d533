namespace BlockIR.Text

def splitAt (c : Char) : List Char → List (List Char)
  | [] => [[]]
  | d :: ds =>
    if d = c then [] :: splitAt c ds
    else match splitAt c ds with
      | [] => [[d]]
      | piece :: pieces => (d :: piece) :: pieces

def lines (s : String) : List String :=
  (splitAt '\n' s.toList).map String.ofList

def repeated (n : Nat) (c : Char) : String :=
  String.ofList (List.replicate n c)

end BlockIR.Text
