import Mathlib.Data.List.Basic

namespace PgRouter.Library.Searches

variable {α : Type}

end PgRouter.Library.Searches
