import LineScript.Lines

/-!
Formatting: every line is trimmed, the fields of a declaration are one blank apart, and a script
ends in exactly one line feed. Echo text is left alone, since its blanks are printed.
-/
namespace LineScript

def formatLine (line : Text) : Text :=
  let t := line.trim
  match Line.classify t with
  | .declaration => Text.joinWith [0x20] (Line.fieldTexts t)
  | _ => t

def formatScript (source : Text) : Text :=
  let joined := Text.joinWith [Text.lf] ((Lines.universal source).map formatLine)
  Text.trimRightBy (· == Text.lf) joined ++ [Text.lf]

end LineScript
