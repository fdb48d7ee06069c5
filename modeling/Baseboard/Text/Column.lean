/-!
# Baseboard.Text.Column

Left-aligned columns of a report line.
-/

namespace Baseboard

/-- `text` followed by the blanks that bring it to `width` characters; a longer
text is kept whole. -/
def column (width : Nat) (text : String) : String :=
  text ++ String.ofList (List.replicate (width - text.length) ' ')

end Baseboard
