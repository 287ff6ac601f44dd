import Userscript.Text

/-! Templates: text in which a placeholder stands for an identifier. Each
placeholder is replaced once, and what is put in is not read again. -/

namespace Userscript

def placeholder : List Char := ['\x7b', 'i', 'd', '\x7d']

def fillChars (id : List Char) : List Char → List Char
  | '\x7b' :: 'i' :: 'd' :: '\x7d' :: rest => id ++ fillChars id rest
  | c :: rest => c :: fillChars id rest
  | [] => []

def fillTemplate (template id : String) : String :=
  String.ofList (fillChars id.toList template.toList)

def hasPlaceholder : List Char → Bool
  | [] => false
  | c :: cs => placeholder.isPrefixOf (c :: cs) || hasPlaceholder cs

end Userscript
