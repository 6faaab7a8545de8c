/-
This file says what a link takes from the URL it is resolved against. A link
that names a scheme takes nothing; any other keeps the host and the port of its
base and leads to a path that is made of the path of the base and the link.
-/

import Nosgem.RequestLine

namespace Nosgem

open CText

/-! ### What a link takes from its base -/

/-- A link that names a scheme, which is parsed on its own or refused. -/
def NamesScheme (link : Text) : Prop :=
  strIEqN link nosUrlScheme nosUrlScheme.length ∨ strstr link (text "://")

instance (link : Text) : Decidable (NamesScheme link) := inferInstanceAs (Decidable (_ ∨ _))

/-- The path that a link without a scheme leads to from a path, if there is one. -/
def linkPath (basePath link : Text) : Option Text :=
  if link = [] then some basePath
  else if link.head? = some slash then
    if link.length ≥ pathSize then none else normalizePath link pathSize
  else if link.head? = some question then
    if basePath.length + link.length ≥ pathSize then none else some (basePath ++ link)
  else if (directory basePath).length + link.length ≥ pathSize then none
  else normalizePath (directory basePath ++ link) pathSize

theorem NosUrl.withPath_injective (url : NosUrl) :
    Function.Injective fun path => ({ url with path } : NosUrl) :=
  fun _ _ equal => congrArg NosUrl.path equal

/-- A link without a scheme keeps the host and the port of its base. -/
theorem nosUrlResolve_linkPath {link : Text} (relative : ¬ NamesScheme link) (base : NosUrl) :
    nosUrlResolve base link = (linkPath base.path link).map fun path => { base with path } := by
  rw [NamesScheme, not_or] at relative
  unfold nosUrlResolve linkPath
  rw [if_neg relative.1, if_neg relative.2]
  split
  · rfl
  split
  · split <;> rfl
  split
  · split <;> rfl
  split
  · rw [if_pos (by omega)]
    rfl
  · split <;> rfl

theorem nosUrlResolve_namesScheme {link : Text} (names : NamesScheme link) (base other : NosUrl) :
    nosUrlResolve base link = nosUrlResolve other link := by
  have nonempty : link ≠ [] := by
    rintro rfl
    exact absurd names (by decide)
  unfold nosUrlResolve
  rw [if_neg nonempty, if_neg nonempty]
  split
  · rfl
  · rw [if_pos (names.resolve_left ‹_›), if_pos (names.resolve_left ‹_›)]

end Nosgem
