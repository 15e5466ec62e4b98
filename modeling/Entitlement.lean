import Entitlement.Main
import Entitlement.Proofs.Alone.Assignments
import Entitlement.Proofs.Condition.Age
import Entitlement.Proofs.Condition.Badges
import Entitlement.Proofs.Condition.Holders
import Entitlement.Proofs.Crowd.Assigning
import Entitlement.Proofs.Crowd.Integrity
import Entitlement.Proofs.Crowd.Origin
import Entitlement.Proofs.Crowd.Stamps
import Entitlement.Proofs.Crowd.Sweeping
import Entitlement.Proofs.Crowd.Unassigning
import Entitlement.Proofs.Delivery.Newest
import Entitlement.Proofs.Desk.Backed
import Entitlement.Proofs.Desk.Lifetimes
import Entitlement.Proofs.Desk.Pruning
import Entitlement.Proofs.Outage.Courtesies
import Entitlement.Proofs.Outage.Edits
import Entitlement.Proofs.Overlap.Agreement
import Entitlement.Proofs.Policy.Coercion
import Entitlement.Proofs.Policy.Generosity
import Entitlement.Proofs.Policy.Overrides
import Entitlement.Proofs.Store.Arrangement
import Entitlement.Proofs.Sync.Convergence
import Entitlement.Proofs.Sync.Replays
import Entitlement.Proofs.Sync.Subscriptions
import Entitlement.Proofs.Wire.Event
import Entitlement.Proofs.Wire.Spelling
import Entitlement.Proofs.Wire.Table
import Entitlement.Proofs.World.Expiry
import Entitlement.Proofs.World.Lifecycle
import Entitlement.Proofs.World.Privileges
import Entitlement.Scenario
