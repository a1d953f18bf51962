import Fractonica.Saros.Engine.Theorems
import Fractonica.Store.Order
import Fractonica.Application.Authorization.Delegation
import Fractonica.Application.Authorization.Derivation
import Fractonica.DataModel.Reduction.Theorems
import Fractonica.Node.Pairing.Expiry
import Fractonica.Client.Replay
import Fractonica.Client.Bootstrap
import Fractonica.Client.Supervised
import Fractonica.Client.History
import Fractonica.Node.Installation.Theorems
import Fractonica.DataModel.Capacity
import Fractonica.Pairing.Endpoints
import Fractonica.Pairing.Signatures
import Fractonica.Store.ClientEntities.Theorems
import Fractonica.Replication.Inventory.Hierarchy
