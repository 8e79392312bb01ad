/-
# `MipsText.Text.Column` — texts of a fixed width

Widths count characters; a text that is wider than its column stays whole.
-/

namespace MipsText.Text

def alignRight (width : Nat) (s : String) : String :=
  String.ofList (s.toList.leftpad width ' ')

def alignLeft (width : Nat) (s : String) : String :=
  String.ofList (s.toList.rightpad width ' ')

end MipsText.Text
