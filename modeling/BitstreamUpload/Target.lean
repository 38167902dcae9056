import BitstreamUpload.Journal

/-!
# Targets

The far end of the configuration bus. Nothing is known of a target but that it takes calls and that
`INIT_B` has a level whenever it is sampled.
-/

namespace BitstreamUpload

/-- Something that hangs on the configuration bus. -/
class Target (σ : Type) where
  /-- The level of `INIT_B` that a sample reads now. -/
  initHigh : σ → Bool
  /-- What a call makes of the target. A sample is a call too. -/
  react : σ → BusCall → σ

end BitstreamUpload
