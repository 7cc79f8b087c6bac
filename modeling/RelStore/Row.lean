import RelStore.OrderedMap

/-!
# Rows
-/

namespace RelStore

/-- The values of a row by column, in the order in which the columns were written. The
assignments of an UPDATE have the same form. -/
abbrev Row := OrderedMap String String

end RelStore
