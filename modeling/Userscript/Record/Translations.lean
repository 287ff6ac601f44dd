import Userscript.Dict

/-! Translated text: a base text, and texts for locale keys in the order in
which the keys were first entered. The key `@` stands for the base text. -/

namespace Userscript

def baseKey : String := "@"

structure Translations where
  base : String
  locales : Dict String
  noBase : baseKey ∉ locales.keys

namespace Translations

def ofBase (base : String) : Translations :=
  ⟨base, Dict.empty, by simp [Dict.keys, Dict.empty]⟩

/-- Enters a text for a key; the key `@` replaces the base text. -/
def add (t : Translations) (key text : String) : Translations :=
  if h : key = baseKey then { t with base := text }
  else
    ⟨t.base, t.locales.insert key text, fun hm =>
      (Dict.mem_keys_insert.mp hm).elim t.noBase fun he => h he.symm⟩

/-- The translations that a dictionary holds; none without a base text. -/
def ofDict? (d : Dict String) : Option Translations :=
  (d.find? baseKey).map fun base => ⟨base, d.erase baseKey, d.not_mem_keys_erase baseKey⟩

end Translations

end Userscript
