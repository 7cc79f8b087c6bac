import RelStore.Sql.Token.Cursor

/-!
# What a query still has to offer

The whole future of a cursor, written down: the items that come while it moves, and the one
that it repeats from then on. A reader of statements takes its tokens from here.
-/

namespace RelStore.Sql

/-- The items that a cursor will hand out: those of `ahead` in order, then `last` for ever. -/
structure Feed where
  ahead : List (Except Error Token)
  last : Except Error Token

namespace Feed

/-- Everything that the cursor will hand out. A cursor that an item does not move will hand out
the same item for ever. -/
def ofCursor (c : Cursor) : Feed :=
  match _ : c.next with
  | (item, c') =>
    if _ : c'.position = c.position then ⟨[], item⟩
    else
      let feed := ofCursor c'
      { feed with ahead := item :: feed.ahead }
termination_by c.rest.length
decreasing_by exact Cursor.length_rest_next_lt ‹_› ‹_›

/-- Whether an item is a run of blanks. -/
def isSpace : Except Error Token → Bool
  | .ok token => token.kind == .whitespace
  | .error _ => false

/-- The feed without the runs of blanks. -/
def significant (feed : Feed) : Feed :=
  { feed with ahead := feed.ahead.filter (!isSpace ·) }

/-- The tokens of a query, blanks left out. -/
def ofText (sql : String) : Feed := (ofCursor (.ofText sql)).significant

/-- The next item, and the feed behind it. -/
def next (feed : Feed) : Except Error Token × Feed :=
  match feed.ahead with
  | [] => (feed.last, feed)
  | item :: ahead => (item, { feed with ahead })

end Feed

end RelStore.Sql
