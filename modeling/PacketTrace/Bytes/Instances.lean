/-!
# Instances of the core library

Powers of natural numbers and equality of byte arrays come with the core
library, and in other ways with libraries that build on it. Those of the core
library are preferred everywhere, so that a term such as `2 ^ 64` is the same
whatever else is imported.
-/

attribute [instance (2000), default_instance (20000)] instPowNat

attribute [instance (2000)] ByteArray.instDecidableEq
